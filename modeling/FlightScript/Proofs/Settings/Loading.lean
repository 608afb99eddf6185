import FlightScript.Settings
import Mathlib.Data.Nat.Basic
import Mathlib.Tactic.Push

/-!
# Which settings are loaded

Settings are checked whichever way they come, so that those which are given are usable
(`Settings.IsUsable`). The settings file that a variable names, if it is there, decides alone.
Otherwise each of the other variables stands for one field, and the field of a variable that is
not set keeps its default (`Settings.IsSetBy`).
-/

namespace FlightScript

namespace Numeral

/-- The text is a whole number below the limit: digits, perhaps after a plus sign. -/
def IsWhole (text : String) (n : Nat) : Prop :=
  ∃ digits : List Char, digits ≠ [] ∧ (∀ c ∈ digits, c.isDigit) ∧
    (text.toList = digits ∨ text.toList = '+' :: digits) ∧
    n = Nat.ofDigitChars 10 digits 0 ∧ n < limit

theorem le_ofDigitChars (n : Nat) (cs : List Char) : n ≤ Nat.ofDigitChars 10 cs n := by
  induction cs generalizing n with
  | nil => exact le_of_eq Nat.ofDigitChars_nil.symm
  | cons c cs ih =>
      rw [Nat.ofDigitChars_cons]
      exact le_trans (by omega) (ih (10 * n + (c.toNat - '0'.toNat)))

/-- Digits are read up to their end exactly when the number that they make up is not too large:
if it is, so is already the part up to some digit. -/
theorem readDigits_eq_ok_iff {n m : Nat} {cs : List Char} (hn : n < limit) :
    readDigits n cs = .ok m ↔
      (∀ c ∈ cs, c.isDigit) ∧ m = Nat.ofDigitChars 10 cs n ∧ m < limit := by
  induction cs generalizing n with
  | nil =>
      rw [readDigits, Nat.ofDigitChars_nil]
      constructor
      · intro h
        cases h
        exact ⟨fun c hc => absurd hc List.not_mem_nil, rfl, hn⟩
      · rintro ⟨-, rfl, -⟩
        rfl
  | cons c cs ih =>
      rw [readDigits, Nat.ofDigitChars_cons, List.forall_mem_cons]
      cases hc : c.isDigit with
      | false => simp
      | true =>
          simp only [Bool.not_true, Bool.false_eq_true, if_false, true_and]
          split
          · next hlimit =>
              refine iff_of_false (fun h => by cases h) ?_
              rintro ⟨-, rfl, hlt⟩
              exact absurd (le_trans hlimit (le_ofDigitChars _ cs)) (not_le_of_gt hlt)
          · next hlimit => exact ih (lt_of_not_ge hlimit)

theorem readWhole_eq_ok_iff {text : String} {n : Nat} :
    readWhole text = .ok n ↔ IsWhole text n := by
  have hread (digits : List Char) : readDigits 0 digits = .ok n ↔
      (∀ c ∈ digits, c.isDigit) ∧ n = Nat.ofDigitChars 10 digits 0 ∧ n < limit :=
    readDigits_eq_ok_iff (by decide)
  have hplus : ('+' : Char).isDigit ≠ true := by decide
  unfold readWhole IsWhole
  split
  · next htext =>
      refine iff_of_false nofun ?_
      rintro ⟨digits, hne, -, hdigits | hdigits, -⟩
      · exact hne (hdigits.symm.trans htext)
      · cases htext.symm.trans hdigits
  · next htext =>
      refine iff_of_false nofun ?_
      rintro ⟨digits, hne, hall, hdigits | hdigits, -⟩
      · exact hplus (hall '+' (hdigits ▸ htext ▸ List.mem_singleton_self '+'))
      · exact hne (List.cons.inj (hdigits.symm.trans htext)).2
  · next rest hne htext =>
      rw [hread, htext]
      constructor
      · rintro ⟨hall, hvalue⟩
        exact ⟨rest, fun hnil => hne (hnil ▸ rfl), hall, Or.inr rfl, hvalue⟩
      · rintro ⟨digits, -, hall, rfl | hdigits, hvalue⟩
        · exact absurd (hall '+' List.mem_cons_self) hplus
        · obtain rfl := (List.cons.inj hdigits).2
          exact ⟨hall, hvalue⟩
  · next hnil _ hsign =>
      rw [hread]
      constructor
      · rintro ⟨hall, hvalue⟩
        exact ⟨text.toList, hnil, hall, Or.inl rfl, hvalue⟩
      · rintro ⟨digits, -, hall, rfl | hdigits, hvalue⟩
        · exact ⟨hall, hvalue⟩
        · exact absurd hdigits (hsign digits)

theorem readNumber_eq_ok_iff {text : String} {x : Float} :
    readNumber text = .ok x ↔ Double.read? text.toList = some x := by
  unfold readNumber
  split
  · next htext => simp [htext]
  · split
    · next hread => simp [hread]
    · next hread => simp [hread]

end Numeral

namespace Settings

/-- The settings can be used: the level is known, in small or capital letters, some events may
wait, and the step is a positive number. -/
structure IsUsable (s : Settings) : Prop where
  level_known : Text.foldCase s.logLevel ∈ ["trace", "debug", "info", "warn", "error"]
  eventBuffer_pos : 0 < s.eventBuffer
  step_finite : s.defaultStep.isFinite
  step_pos : 0 < s.defaultStep

/-- The value is what the text of a variable stands for, and the default where there is no text. -/
def Replaces {α : Type} (standsFor : String → α → Prop) (unset : α) (value : α) :
    Option String → Prop
  | none => value = unset
  | some text => standsFor text value

/-- The settings are the default ones with each variable that is set put into its own field. -/
structure IsSetBy (s : Settings) (env : Environment) : Prop where
  logLevel : Replaces (fun text level => level = text) "info" s.logLevel
    (env "MSCRIPT_LOG_LEVEL")
  logDirectory : Replaces (fun text directory => directory = some text) none s.logDirectory
    (env "MSCRIPT_LOG_DIR")
  eventBuffer : Replaces Numeral.IsWhole 100 s.eventBuffer (env "MSCRIPT_EVENT_BUFFER")
  defaultStep : Replaces (fun text step => Double.read? text.toList = some step) 60 s.defaultStep
    (env "MSCRIPT_DEFAULT_STEP_SECONDS")

variable {env : Environment} {files : Files} {s t : Settings}

theorem Replaces.standsFor {α : Type} {standsFor : String → α → Prop} {unset value : α}
    {text? : Option String} {text : String} (h : Replaces standsFor unset value text?)
    (htext : text ∈ text?) : standsFor text value := by
  obtain rfl : text? = some text := htext
  exact h

theorem exists_replaces {α : Type} {standsFor : String → α → Prop} {text? : Option String}
    (unset : α) (h : ∀ text ∈ text?, ∃ value, standsFor text value) :
    ∃ value, Replaces standsFor unset value text? := by
  cases text? with
  | none => exact ⟨unset, rfl⟩
  | some text => exact h text rfl

/-! ### The check -/

theorem flaw?_eq_none_iff_isUsable : s.flaw? = none ↔ s.IsUsable := by
  rw [flaw?_eq_none_iff]
  constructor
  · rintro ⟨hlevel, hbuffer, hfinite, hstep⟩
    exact ⟨hlevel, hbuffer, hfinite, hstep⟩
  · rintro ⟨hlevel, hbuffer, hfinite, hstep⟩
    exact ⟨hlevel, hbuffer, hfinite, hstep⟩

theorem check_eq_ok_iff_isUsable : s.check = .ok t ↔ s.IsUsable ∧ t = s := by
  rw [check_eq_ok_iff, flaw?_eq_none_iff_isUsable]

theorem isUsable_of_ofDocument {text : String} (h : ofDocument text = .ok s) : s.IsUsable := by
  unfold ofDocument at h
  split at h
  · cases h
  · obtain ⟨husable, rfl⟩ := check_eq_ok_iff_isUsable.1 h
    exact husable

theorem isUsable_of_ofFile {path : String} (h : ofFile files path = .ok s) : s.IsUsable := by
  unfold ofFile at h
  split at h
  · cases h
  · exact isUsable_of_ofDocument h

/-! ### The variables -/

theorem readBuffer_eq_ok_iff {n : Nat} :
    readBuffer env = .ok n ↔ Replaces Numeral.IsWhole 100 n (env "MSCRIPT_EVENT_BUFFER") := by
  rw [readBuffer, eventBufferVariable]
  cases env "MSCRIPT_EVENT_BUFFER" with
  | none => exact (Except.ok.injEq _ _).to_iff.trans eq_comm
  | some text =>
      rw [Replaces, ← Numeral.readWhole_eq_ok_iff]
      cases h : Numeral.readWhole text <;> simp [h]

theorem readStep_eq_ok_iff {x : Float} :
    readStep env = .ok x ↔ Replaces (fun text step => Double.read? text.toList = some step) 60 x
      (env "MSCRIPT_DEFAULT_STEP_SECONDS") := by
  rw [readStep, defaultStepVariable]
  cases env "MSCRIPT_DEFAULT_STEP_SECONDS" with
  | none => exact (Except.ok.injEq _ _).to_iff.trans eq_comm
  | some text =>
      rw [Replaces, ← Numeral.readNumber_eq_ok_iff]
      cases h : Numeral.readNumber text <;> simp [h]

theorem readVariables_eq_ok_iff : readVariables env = .ok s ↔ s.IsSetBy env := by
  have hread : readVariables env = .ok s ↔
      readBuffer env = .ok s.eventBuffer ∧ readStep env = .ok s.defaultStep ∧
        s.logLevel = (env "MSCRIPT_LOG_LEVEL").getD "info" ∧
        s.logDirectory = env "MSCRIPT_LOG_DIR" := by
    rw [readVariables]
    cases readBuffer env with
    | error e => exact iff_of_false nofun nofun
    | ok buffer =>
        cases readStep env with
        | error e => exact iff_of_false nofun nofun
        | ok step =>
            refine (Except.ok.injEq _ s).to_iff.trans ?_
            rw [Settings.mk.injEq, Except.ok.injEq, Except.ok.injEq]
            constructor
            · rintro ⟨hlevel, hdirectory, hbuffer, hstep⟩
              exact ⟨hbuffer, hstep, hlevel.symm, hdirectory.symm⟩
            · rintro ⟨hbuffer, hstep, hlevel, hdirectory⟩
              exact ⟨hlevel.symm, hdirectory.symm, hbuffer, hstep⟩
  have hlevel : s.logLevel = (env "MSCRIPT_LOG_LEVEL").getD "info" ↔
      Replaces (fun text level => level = text) "info" s.logLevel (env "MSCRIPT_LOG_LEVEL") := by
    cases env "MSCRIPT_LOG_LEVEL" <;> rfl
  have hdirectory : s.logDirectory = env "MSCRIPT_LOG_DIR" ↔
      Replaces (fun text directory => directory = some text) none s.logDirectory
        (env "MSCRIPT_LOG_DIR") := by
    cases env "MSCRIPT_LOG_DIR" <;> rfl
  rw [hread, readBuffer_eq_ok_iff, readStep_eq_ok_iff, hlevel, hdirectory]
  constructor
  · rintro ⟨hbuffer, hstep, hlevel, hdirectory⟩
    exact ⟨hlevel, hdirectory, hbuffer, hstep⟩
  · rintro ⟨hlevel, hdirectory, hbuffer, hstep⟩
    exact ⟨hbuffer, hstep, hlevel, hdirectory⟩

theorem IsSetBy.unique (h : s.IsSetBy env) (h' : t.IsSetBy env) : s = t :=
  Except.ok.inj ((readVariables_eq_ok_iff.2 h).symm.trans (readVariables_eq_ok_iff.2 h'))

theorem ofVariables_eq_ok_iff : ofVariables env = .ok s ↔ s.IsSetBy env ∧ s.IsUsable := by
  rw [ofVariables, ← readVariables_eq_ok_iff]
  cases readVariables env with
  | error e => exact iff_of_false nofun nofun
  | ok t =>
      change t.check = .ok s ↔ _
      rw [check_eq_ok_iff_isUsable, Except.ok.injEq]
      constructor
      · rintro ⟨husable, rfl⟩
        exact ⟨rfl, husable⟩
      · rintro ⟨rfl, husable⟩
        exact ⟨husable, rfl⟩

theorem exists_isSetBy
    (hbuffer : ∀ text ∈ env "MSCRIPT_EVENT_BUFFER", ∃ n, Numeral.IsWhole text n)
    (hstep : ∀ text ∈ env "MSCRIPT_DEFAULT_STEP_SECONDS",
      ∃ step, Double.read? text.toList = some step) : ∃ s : Settings, s.IsSetBy env := by
  obtain ⟨level, hlevel⟩ : ∃ level, Replaces (fun text level => level = text) "info" level
      (env "MSCRIPT_LOG_LEVEL") :=
    exists_replaces "info" fun text _ => ⟨text, rfl⟩
  obtain ⟨directory, hdirectory⟩ : ∃ directory, Replaces
      (fun text directory => directory = some text) none directory (env "MSCRIPT_LOG_DIR") :=
    exists_replaces none fun text _ => ⟨some text, rfl⟩
  obtain ⟨buffer, hbuffer⟩ := exists_replaces 100 hbuffer
  obtain ⟨step, hstep⟩ := exists_replaces 60 hstep
  exact ⟨⟨level, directory, buffer, step⟩, hlevel, hdirectory, hbuffer, hstep⟩

/-- Variables give no settings just when one of the two numbers cannot be read, or when the
settings are not usable. -/
theorem ofVariables_eq_error_iff :
    (∃ e, ofVariables env = .error e) ↔
      (∃ text ∈ env "MSCRIPT_EVENT_BUFFER", ∀ n, ¬ Numeral.IsWhole text n) ∨
      (∃ text ∈ env "MSCRIPT_DEFAULT_STEP_SECONDS", Double.read? text.toList = none) ∨
      ∃ s : Settings, s.IsSetBy env ∧ ¬ s.IsUsable := by
  constructor
  · rintro ⟨e, he⟩
    by_contra hnone
    push Not at hnone
    obtain ⟨hbuffer, hstep, husable⟩ := hnone
    obtain ⟨s, hs⟩ := exists_isSetBy hbuffer fun text htext =>
      Option.ne_none_iff_exists'.1 (hstep text htext)
    cases he.symm.trans (ofVariables_eq_ok_iff.2 ⟨hs, husable s hs⟩)
  · intro h
    cases hload : ofVariables env with
    | error e => exact ⟨e, rfl⟩
    | ok s =>
        obtain ⟨hs, husable⟩ := ofVariables_eq_ok_iff.1 hload
        rcases h with ⟨text, htext, hbuffer⟩ | ⟨text, htext, hstep⟩ | ⟨t, ht, hflaw⟩
        · exact absurd (hs.eventBuffer.standsFor htext) (hbuffer _)
        · cases hstep.symm.trans (hs.defaultStep.standsFor htext)
        · exact absurd husable (ht.unique hs ▸ hflaw)

/-! ### Files -/

theorem file?_eq_some_iff {path : String} :
    file? files env = some path ↔ env "MSCRIPT_CONFIG_FILE" = some path ∧ files.holds path :=
  Option.filter_eq_some_iff

theorem load_of_holds {path : String} (hpath : env "MSCRIPT_CONFIG_FILE" = some path)
    (hfile : files.holds path) : load files env = ofFile files path := by
  rw [load, file?_eq_some_iff.2 ⟨hpath, hfile⟩]

theorem load_of_not_holds (h : ∀ path ∈ env "MSCRIPT_CONFIG_FILE", ¬ files.holds path) :
    load files env = ofVariables env := by
  have hnone : file? files env = none := by
    rw [Option.eq_none_iff_forall_ne_some]
    intro path hpath
    obtain ⟨hnamed, hfile⟩ := file?_eq_some_iff.1 hpath
    exact h path hnamed hfile
  rw [load, hnone]

theorem isUsable_of_load (h : load files env = .ok s) : s.IsUsable := by
  unfold load at h
  split at h
  · exact isUsable_of_ofFile h
  · exact (ofVariables_eq_ok_iff.1 h).2

/-- Settings from a document, from a file and from variables pass the check and are usable. Where
a settings file is named and there, it decides alone, whatever is in the other variables.
Otherwise there are no settings just when the size of the buffer or the step cannot be read or
the settings are not usable; those that there are have each variable that is set in its own field
and the default in each other one. -/
theorem loads_usable (files : Files) (env : Environment) :
    (∀ text s, ofDocument text = .ok s → s.check = .ok s ∧ s.IsUsable) ∧
    (∀ path s, ofFile files path = .ok s → s.check = .ok s ∧ s.IsUsable) ∧
    (∀ s, load files env = .ok s → s.check = .ok s ∧ s.IsUsable) ∧
    (∀ path, env "MSCRIPT_CONFIG_FILE" = some path → files.holds path →
      load files env = ofFile files path) ∧
    ((∀ path ∈ env "MSCRIPT_CONFIG_FILE", ¬ files.holds path) →
      ((∃ e, load files env = .error e) ↔
        (∃ text ∈ env "MSCRIPT_EVENT_BUFFER", ∀ n, ¬ Numeral.IsWhole text n) ∨
        (∃ text ∈ env "MSCRIPT_DEFAULT_STEP_SECONDS", Double.read? text.toList = none) ∨
        ∃ s : Settings, s.IsSetBy env ∧ ¬ s.IsUsable) ∧
      ∀ s, load files env = .ok s ↔ s.IsSetBy env ∧ s.IsUsable) := by
  have hcheck {s : Settings} (h : s.IsUsable) : s.check = .ok s ∧ s.IsUsable :=
    ⟨check_eq_ok_iff_isUsable.2 ⟨h, rfl⟩, h⟩
  refine ⟨fun _ _ h => hcheck (isUsable_of_ofDocument h), fun _ _ h =>
    hcheck (isUsable_of_ofFile h), fun _ h => hcheck (isUsable_of_load h),
    fun _ => load_of_holds, fun hnone => ?_⟩
  rw [load_of_not_holds hnone]
  exact ⟨ofVariables_eq_error_iff, fun _ => ofVariables_eq_ok_iff⟩

/-- A size that cannot be read does no harm beside a settings file that is there, and leaves no
settings without one. -/
theorem loads_usable_of_unreadable_size :
    let files : Files := fun path =>
      if path = "a.yaml" then .ok "event_buffer: 8" else .error .notFound
    let named : Environment := fun name =>
      if name = "MSCRIPT_CONFIG_FILE" then some "a.yaml"
      else if name = "MSCRIPT_EVENT_BUFFER" then some "lots" else none
    let alone : Environment := fun name =>
      if name = "MSCRIPT_EVENT_BUFFER" then some "lots" else none
    let s : Settings := { default with eventBuffer := 8 }
    load files named = .ok s ∧ s.IsUsable ∧ (∃ e, load files alone = .error e) ∧
      load files (fun _ => none) = .ok default := by
  intro files named alone s
  obtain ⟨-, -, husable, hnamed, -⟩ := loads_usable files named
  obtain ⟨-, -, -, -, halone⟩ := loads_usable files alone
  obtain ⟨-, -, -, -, hunset⟩ := loads_usable files fun _ => none
  have hload : load files named = .ok s :=
    (hnamed "a.yaml" (by decide) (by decide)).trans (by decide +kernel)
  have hsize (n : Nat) : ¬ Numeral.IsWhole "lots" n := fun h => by
    cases Numeral.readWhole_eq_ok_iff.2 h
  have hdefault : default.IsUsable := flaw?_eq_none_iff_isUsable.1 (by decide +kernel)
  exact ⟨hload, (husable s hload).2, (halone (by decide)).1.2 (Or.inl ⟨"lots", by decide, hsize⟩),
    ((hunset nofun).2 default).2 ⟨⟨rfl, rfl, rfl, rfl⟩, hdefault⟩⟩

end Settings

end FlightScript
