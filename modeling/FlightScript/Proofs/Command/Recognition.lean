import FlightScript.Proofs.Command.Language

/-!
# Recognition of commands

The readers of the shapes accept exactly the lines that denote a command, and return
that command (`Shape.read?_eq_some_iff`). The lines are those that are left when the
white space at the end is removed: a reader takes blanks as long as they go, also where
the language leaves them to a value or a condition, and a line that ends with a blank
could lose its value to them.
-/

namespace FlightScript

namespace Shape

open Words Text

/-! ### Values, conditions and stop clauses -/

theorem assigned?_sound {cs : List Char} {v : Value} (h : assigned? cs = some v) :
    Assigns cs v := by
  simp only [assigned?, Option.bind_eq_bind, Option.bind_eq_some_iff, symbol?_eq_some_iff,
    nonempty?_eq_some_iff] at h
  obtain ⟨rest, hequals, text, ⟨htext, hne⟩, hv⟩ := h
  obtain ⟨g₁, hg₁, hcs⟩ := skipBlanks_sound cs
  obtain ⟨g₂, hg₂, hrest⟩ := skipBlanks_sound rest
  obtain rfl := Option.some.inj hv
  rw [hcs, hequals, hrest, htext]
  have hassigns := Assigns.intro hg₁ hg₂ hne
  rwa [List.append_assoc, List.cons_append] at hassigns

theorem read_skipBlanks (cs : List Char) :
    Value.read (String.ofList (skipBlanks cs)) = Value.read (String.ofList cs) := by
  rw [Value.read, Value.read, String.toList_ofList, String.toList_ofList, trimChars_skipBlanks]

theorem assigned?_complete {cs : List Char} {v : Value} (h : Assigns cs v)
    (hend : EndsOutside isBlank cs) : assigned? cs = some v := by
  obtain @⟨g₁, g₂, text, hg₁, hg₂, hne⟩ := h
  have hleft : skipBlanks text ≠ [] := hend.of_append.dropWhile_ne_nil hne
  have hequals := skipBlanks_append_cons hg₁ (c := '=') rfl (g₂ ++ text)
  have hvalue := skipBlanks_append hg₂ text
  rw [List.append_assoc, List.cons_append]
  simp only [assigned?, hequals, symbol?_cons, hvalue, Option.bind_eq_bind,
    Option.bind_some, nonempty?_eq_some_iff.2 ⟨rfl, hleft⟩, read_skipBlanks]

theorem condition?_sound {keyword : String} {cs : List Char} {condition : String}
    (h : condition? keyword cs = some condition) : Conditions keyword cs condition := by
  simp only [condition?, Option.bind_eq_bind, Option.bind_eq_some_iff,
    nonempty?_eq_some_iff] at h
  obtain ⟨rest, hkeyword, text, hblanks, _, ⟨rfl, hne⟩, hcondition⟩ := h
  obtain ⟨w, hw, rfl⟩ := keyword?_sound hkeyword
  obtain ⟨⟨g, hg, rfl⟩, -⟩ := blanks?_sound hblanks
  obtain rfl := Option.some.inj hcondition
  rw [← List.append_assoc]
  exact Conditions.intro hw hg hne

theorem condition?_complete {keyword : String} {cs : List Char} {condition : String}
    (h : Conditions keyword cs condition) (hend : EndsOutside isBlank cs) :
    condition? keyword cs = some condition := by
  obtain @⟨w, g, condition, hw, hg, hne⟩ := h
  have hleft : skipBlanks condition ≠ [] := hend.of_append.dropWhile_ne_nil hne
  rw [List.append_assoc]
  simp only [condition?, keyword?_complete hw, blanks?_append hg, Option.bind_eq_bind,
    Option.bind_some, nonempty?_eq_some_iff.2 ⟨rfl, hleft⟩, trimChars_skipBlanks]

theorem target?_sound {cs rest : List Char} {object property : String}
    (h : target? cs = some (object, property, rest)) :
    ∃ w₁ w₂, IsName w₁ ∧ IsName w₂ ∧ cs = w₁ ++ '.' :: w₂ ++ rest ∧
      object = String.ofList w₁ ∧ property = String.ofList w₂ := by
  simp only [target?, Option.bind_eq_bind, Option.bind_eq_some_iff, Prod.exists,
    symbol?_eq_some_iff, Option.some.injEq, Prod.mk.injEq] at h
  obtain ⟨_, _, hobject, _, rfl, _, _, hproperty, rfl, rfl, rfl⟩ := h
  obtain ⟨w₁, hw₁, rfl, rfl⟩ := name?_sound hobject
  obtain ⟨w₂, hw₂, rfl, rfl⟩ := name?_sound hproperty
  exact ⟨w₁, w₂, hw₁, hw₂, by rw [List.append_assoc, List.cons_append], rfl, rfl⟩

theorem target?_complete {w₁ w₂ rest : List Char} (hw₁ : IsName w₁) (hw₂ : IsName w₂)
    (hrest : StartsOutside isNamePart rest) :
    target? (w₁ ++ '.' :: w₂ ++ rest) = some (String.ofList w₁, String.ofList w₂, rest) := by
  have hobject : name? (w₁ ++ '.' :: (w₂ ++ rest)) =
      some (String.ofList w₁, '.' :: (w₂ ++ rest)) :=
    name?_complete hw₁ (startsOutside_cons rfl _)
  rw [List.append_assoc, List.cons_append]
  simp only [target?, hobject, Option.bind_eq_bind, Option.bind_some, symbol?_cons,
    name?_complete hw₂ hrest]

theorem stopValue?_sound {cs : List Char} {v : Value} (h : stopValue? cs = some v)
    (hstart : StartsOutside isBlank cs) :
    ∃ text g, cs = text ++ g ++ ['\x7d'] ∧ text ≠ [] ∧ '\x7d' ∉ text ∧
      StartsOutside isBlank text ∧ EndsOutside isBlank text ∧ IsGap g ∧
      v = .read (String.ofList text) := by
  simp only [stopValue?, Option.bind_eq_bind, Option.bind_eq_some_iff, nonempty?_eq_some_iff,
    Option.ite_none_right_eq_some, Option.some.injEq] at h
  obtain ⟨text, ⟨htext, hne⟩, hbrace, rfl⟩ := h
  obtain ⟨g, hinner, hg⟩ :=
    exists_dropTrailing_append isBlank (cs.takeWhile (· ≠ '\x7d'))
  rw [htext] at hinner
  have hcs : cs = text ++ g ++ ['\x7d'] := by
    rw [← hinner, ← hbrace, List.takeWhile_append_dropWhile]
  have hclean : '\x7d' ∉ cs.takeWhile (· ≠ '\x7d') := by
    intro hmem
    simpa using List.mem_takeWhile_imp hmem
  rw [hinner, List.mem_append, not_or] at hclean
  refine ⟨text, g, hcs, hne, hclean.1, ?_, htext ▸ endsOutside_dropTrailing _, hg, rfl⟩
  intro c hc
  apply hstart c
  rw [hcs, List.append_assoc, List.head?_append, hc]
  rfl

theorem stopValue?_complete {text g : List Char} (hne : text ≠ []) (hbrace : '\x7d' ∉ text)
    (hend : EndsOutside isBlank text) (hg : IsGap g) :
    stopValue? (text ++ g ++ ['\x7d']) = some (.read (String.ofList text)) := by
  have hinner : ∀ c ∈ text ++ g, decide (c ≠ '\x7d') = true := by
    intro c hc
    rw [decide_eq_true_eq]
    rintro rfl
    rcases List.mem_append.1 hc with htext | hgap
    · exact hbrace htext
    · exact absurd (hg _ hgap) (by decide)
  have hrest : StartsOutside (fun c : Char => decide (c ≠ '\x7d')) ['\x7d'] :=
    startsOutside_cons rfl []
  have htake := takeWhile_append_of_startsOutside hinner hrest
  have hdrop := dropWhile_append_of_startsOutside hinner hrest
  have htrim : dropTrailing isBlank (text ++ g) = text := by
    rw [dropTrailing_append hg, dropTrailing_of_endsOutside hend]
  simp only [stopValue?, htake, hdrop, htrim, nonempty?_eq_some_iff.2 ⟨rfl, hne⟩,
    Option.bind_eq_bind, Option.bind_some, if_true]

theorem stop?_sound {cs : List Char} {stop : StopClause} (h : stop? cs = some stop) :
    Stops cs stop := by
  simp only [stop?, Option.bind_eq_bind, Option.bind_eq_some_iff, symbol?_eq_some_iff,
    Prod.exists, Option.some.injEq] at h
  obtain ⟨rest, rfl, _, _, afterTarget, htarget, afterEquals, hequals, v, hvalue, rfl⟩ := h
  obtain ⟨g₁, hg₁, hrest⟩ := skipBlanks_sound rest
  obtain ⟨w₁, w₂, hw₁, hw₂, hparts, rfl, rfl⟩ := target?_sound htarget
  obtain ⟨g₂, hg₂, hafter⟩ := skipBlanks_sound afterTarget
  obtain ⟨g₃, hg₃, hvalues⟩ := skipBlanks_sound afterEquals
  obtain ⟨text, g₄, htext, hne, hbrace, hstart, hend, hg₄, rfl⟩ :=
    stopValue?_sound hvalue (startsOutside_skipBlanks afterEquals)
  have hstops := Stops.intro hg₁ hw₁ hw₂ hg₂ hg₃ hne hbrace hstart hend hg₄
  rw [hrest, hparts, hafter, hequals, hvalues, htext]
  simpa only [List.append_assoc, List.cons_append] using hstops

theorem stop?_complete {cs : List Char} {stop : StopClause} (h : Stops cs stop) :
    stop? cs = some stop := by
  obtain @⟨g₁, object, property, g₂, g₃, v, g₄, hg₁, hobject, hproperty, hg₂, hg₃, hne, hbrace,
    hstart, hend, hg₄⟩ := h
  have htarget := target?_complete hobject hproperty
    (hg₂.startsOutside_isNamePart (c := '=') rfl (g₃ ++ (v ++ g₄ ++ ['\x7d'])))
  have hgap₁ := skipBlanks_complete hg₁ (hobject.startsOutside_isBlank
    ('.' :: property ++ (g₂ ++ '=' :: (g₃ ++ (v ++ g₄ ++ ['\x7d'])))))
  have hgap₂ := skipBlanks_append_cons hg₂ (c := '=') rfl (g₃ ++ (v ++ g₄ ++ ['\x7d']))
  have hgap₃ : skipBlanks (g₃ ++ (v ++ g₄ ++ ['\x7d'])) = v ++ g₄ ++ ['\x7d'] := by
    rw [List.append_assoc]
    exact skipBlanks_complete hg₃ (hstart.append hne _)
  have hvalue := stopValue?_complete hne hbrace hend hg₄
  simp only [List.append_assoc, List.cons_append] at htarget hgap₁ hgap₂ hgap₃ hvalue ⊢
  simp only [stop?, symbol?_cons, hgap₁, htarget, hgap₂, hgap₃, hvalue, Option.bind_eq_bind,
    Option.bind_some]

/-! ### The shapes -/

theorem whole?_eq_some_iff {command c : Command} {rest : List Char} :
    whole? command rest = some c ↔ rest = [] ∧ command = c := by
  rw [whole?, Option.ite_none_right_eq_some, Option.some.injEq]

/-- A command that is a keyword alone. -/
theorem bind_whole?_eq_some_iff {keyword : String} {command c : Command} {cs : List Char} :
    (keyword? keyword.toList cs).bind (whole? command) = some c ↔
      IsKeyword keyword cs ∧ command = c := by
  constructor
  · intro h
    obtain ⟨rest, hread, hwhole⟩ := Option.bind_eq_some_iff.1 h
    obtain ⟨w, hw, rfl⟩ := keyword?_sound hread
    obtain ⟨rfl, rfl⟩ := whole?_eq_some_iff.1 hwhole
    rw [List.append_nil]
    exact ⟨hw, rfl⟩
  · rintro ⟨hw, rfl⟩
    rw [keyword?_whole hw]
    rfl

theorem create?_sound {cs : List Char} {c : Command} (h : create? cs = some c) :
    Denotes .create cs c := by
  simp only [create?, Option.bind_eq_bind, Option.bind_eq_some_iff, Prod.exists,
    whole?_eq_some_iff] at h
  obtain ⟨_, hread₁, _, hread₂, _, _, hread₃, _, hread₄, _, _, hread₅, rfl, rfl⟩ := h
  obtain ⟨w, hw, rfl⟩ := keyword?_sound hread₁
  obtain ⟨⟨g₁, hg₁, rfl⟩, -⟩ := blanks?_sound hread₂
  obtain ⟨kind, hkind, rfl, rfl⟩ := name?_sound hread₃
  obtain ⟨⟨g₂, hg₂, rfl⟩, -⟩ := blanks?_sound hread₄
  obtain ⟨name, hname, rfl, rfl⟩ := name?_sound hread₅
  have hdenotes := Denotes.create hw hg₁ hkind hg₂ hname
  simpa only [List.append_assoc, List.append_nil] using hdenotes

theorem create?_complete {w g₁ kind g₂ name : List Char} (hw : IsKeyword "create" w)
    (hg₁ : IsSeparator g₁) (hkind : IsName kind) (hg₂ : IsSeparator g₂) (hname : IsName name) :
    create? (w ++ g₁ ++ kind ++ g₂ ++ name) =
      some (.create (String.ofList kind) (String.ofList name)) := by
  have hblanks₁ := blanks?_complete hg₁ (hkind.startsOutside_isBlank (g₂ ++ name))
  have hkind' := name?_complete hkind (hg₂.startsOutside_isNamePart name)
  have hblanks₂ : blanks? (g₂ ++ name) = some name := by
    have hstart := hname.startsOutside_isBlank []
    rw [List.append_nil] at hstart
    exact blanks?_complete hg₂ hstart
  simp only [List.append_assoc]
  simp only [create?, keyword?_complete hw, hblanks₁, hkind', hblanks₂, name?_whole hname,
    Option.bind_eq_bind, Option.bind_some, whole?_eq_some_iff, and_self]

theorem save?_sound {cs : List Char} {c : Command} (h : save? cs = some c) :
    Denotes .save cs c := by
  simp only [save?, Option.bind_eq_bind, Option.bind_eq_some_iff, Prod.exists,
    whole?_eq_some_iff] at h
  obtain ⟨_, hread₁, _, hread₂, _, _, hread₃, rfl, rfl⟩ := h
  obtain ⟨w, hw, rfl⟩ := keyword?_sound hread₁
  obtain ⟨⟨g, hg, rfl⟩, -⟩ := blanks?_sound hread₂
  obtain ⟨object, hobject, rfl, rfl⟩ := name?_sound hread₃
  have hdenotes := Denotes.save hw hg hobject
  simpa only [List.append_assoc, List.append_nil] using hdenotes

theorem save?_complete {w g object : List Char} (hw : IsKeyword "save" w) (hg : IsSeparator g)
    (hobject : IsName object) :
    save? (w ++ g ++ object) = some (.save (String.ofList object)) := by
  have hstart := hobject.startsOutside_isBlank []
  rw [List.append_nil] at hstart
  simp only [List.append_assoc]
  simp only [save?, keyword?_complete hw, blanks?_complete hg hstart, name?_whole hobject,
    Option.bind_eq_bind, Option.bind_some, whole?_eq_some_iff, and_self]

theorem set?_sound {cs : List Char} {c : Command} (h : set? cs = some c) :
    Denotes .set cs c := by
  simp only [set?, Option.bind_eq_bind, Option.bind_eq_some_iff, Prod.exists,
    Option.some.injEq] at h
  obtain ⟨_, _, _, htarget, v, hvalue, rfl⟩ := h
  obtain ⟨w₁, w₂, hw₁, hw₂, rfl, rfl, rfl⟩ := target?_sound htarget
  exact Denotes.set hw₁ hw₂ (assigned?_sound hvalue)

theorem startsOutside_of_assigns {cs : List Char} {v : Value} (h : Assigns cs v) :
    StartsOutside isNamePart cs := by
  obtain @⟨g₁, g₂, text, hg₁, hg₂, hne⟩ := h
  rw [List.append_assoc]
  exact hg₁.startsOutside_isNamePart rfl (g₂ ++ text)

theorem set?_complete {object property rest : List Char} {v : Value} (hobject : IsName object)
    (hproperty : IsName property) (hrest : Assigns rest v) (hend : EndsOutside isBlank rest) :
    set? (object ++ '.' :: property ++ rest) =
      some (.set (String.ofList object) (String.ofList property) v) := by
  have htarget := target?_complete hobject hproperty (startsOutside_of_assigns hrest)
  simp only [set?, htarget, assigned?_complete hrest hend, Option.bind_eq_bind,
    Option.bind_some]

theorem propagate?_sound {cs : List Char} {c : Command} (h : propagate? cs = some c) :
    Denotes .propagate cs c := by
  simp only [propagate?, Option.bind_eq_bind, Option.bind_eq_some_iff, Prod.exists,
    symbol?_eq_some_iff] at h
  obtain ⟨_, hread₁, _, hread₂, _, afterName, hread₃, rest, hopen, _, afterCraft, hread₄, tail,
    hclose, htail⟩ := h
  obtain ⟨w, hw, rfl⟩ := keyword?_sound hread₁
  obtain ⟨⟨g₁, hg₁, rfl⟩, -⟩ := blanks?_sound hread₂
  obtain ⟨propagator, hpropagator, rfl, rfl⟩ := name?_sound hread₃
  obtain ⟨g₂, hg₂, hafter⟩ := skipBlanks_sound afterName
  obtain ⟨g₃, hg₃, hrest⟩ := skipBlanks_sound rest
  obtain ⟨spacecraft, hspacecraft, hcraft, rfl⟩ := name?_sound hread₄
  obtain ⟨g₄, hg₄, hafter'⟩ := skipBlanks_sound afterCraft
  rw [hafter, hopen, hrest, hcraft, hafter', hclose]
  by_cases hnil : tail = []
  · rw [if_pos hnil] at htail
    obtain rfl := Option.some.inj htail
    have hdenotes := Denotes.propagate hw hg₁ hpropagator hg₂ hg₃ hspacecraft hg₄
    rw [hnil]
    simpa only [List.append_assoc, List.cons_append] using hdenotes
  · rw [if_neg hnil, Option.map_eq_some_iff] at htail
    obtain ⟨stop, hstop, rfl⟩ := htail
    obtain ⟨g₅, hg₅, hclause⟩ := skipBlanks_sound tail
    have hdenotes := Denotes.propagateUntil hw hg₁ hpropagator hg₂ hg₃ hspacecraft hg₄ hg₅
      (stop?_sound hstop)
    rw [hclause]
    simpa only [List.append_assoc, List.cons_append] using hdenotes

/-- A propagation is read up to its closing parenthesis, whatever follows. -/
theorem propagate?_append {w g₁ propagator g₂ g₃ spacecraft g₄ : List Char}
    (hw : IsKeyword "propagate" w) (hg₁ : IsSeparator g₁) (hpropagator : IsName propagator)
    (hg₂ : IsGap g₂) (hg₃ : IsGap g₃) (hspacecraft : IsName spacecraft) (hg₄ : IsGap g₄)
    (tail : List Char) :
    propagate?
        (w ++ g₁ ++ propagator ++ g₂ ++ '(' :: g₃ ++ spacecraft ++ g₄ ++ ')' :: tail) =
      if tail = [] then
        some (.propagate (String.ofList propagator) (String.ofList spacecraft) none)
      else
        (stop? (skipBlanks tail)).map fun stop =>
          .propagate (String.ofList propagator) (String.ofList spacecraft) (some stop) := by
  let afterCraft := g₄ ++ ')' :: tail
  let afterName := g₂ ++ '(' :: (g₃ ++ (spacecraft ++ afterCraft))
  have hblanks := blanks?_complete hg₁ (hpropagator.startsOutside_isBlank afterName)
  have hname : name? (propagator ++ afterName) = some (String.ofList propagator, afterName) :=
    name?_complete hpropagator (hg₂.startsOutside_isNamePart rfl _)
  have hopen : skipBlanks afterName = '(' :: (g₃ ++ (spacecraft ++ afterCraft)) :=
    skipBlanks_append_cons hg₂ rfl _
  have hgap := skipBlanks_complete hg₃ (hspacecraft.startsOutside_isBlank afterCraft)
  have hcraft : name? (spacecraft ++ afterCraft) =
      some (String.ofList spacecraft, afterCraft) :=
    name?_complete hspacecraft (hg₄.startsOutside_isNamePart rfl _)
  have hclose : skipBlanks afterCraft = ')' :: tail := skipBlanks_append_cons hg₄ rfl tail
  have hline : w ++ g₁ ++ propagator ++ g₂ ++ '(' :: g₃ ++ spacecraft ++ g₄ ++ ')' :: tail =
      w ++ (g₁ ++ (propagator ++ afterName)) := by
    simp only [afterName, afterCraft, List.append_assoc, List.cons_append]
  rw [hline]
  simp only [propagate?, keyword?_complete hw, hblanks, hname, hopen, hgap, hcraft, hclose,
    symbol?_cons, Option.bind_eq_bind, Option.bind_some]

theorem propagateUntil?_complete {w g₁ propagator g₂ g₃ spacecraft g₄ g₅ clause : List Char}
    {stop : StopClause} (hw : IsKeyword "propagate" w) (hg₁ : IsSeparator g₁)
    (hpropagator : IsName propagator) (hg₂ : IsGap g₂) (hg₃ : IsGap g₃)
    (hspacecraft : IsName spacecraft) (hg₄ : IsGap g₄) (hg₅ : IsGap g₅)
    (hclause : Stops clause stop) :
    propagate?
        (w ++ g₁ ++ propagator ++ g₂ ++ '(' :: g₃ ++ spacecraft ++ g₄ ++ ')' :: g₅ ++ clause) =
      some (.propagate (String.ofList propagator) (String.ofList spacecraft) (some stop)) := by
  have hread := stop?_complete hclause
  obtain ⟨text, hbrace⟩ : ∃ text, clause = '\x7b' :: text := by
    obtain ⟨-, -, -, -, -, -, -, -, -, -⟩ := hclause
    exact ⟨_, rfl⟩
  have hgap : skipBlanks (g₅ ++ clause) = clause := by
    rw [hbrace]
    exact skipBlanks_append_cons hg₅ rfl text
  have hne : g₅ ++ clause ≠ [] := by
    rw [hbrace]
    exact List.append_ne_nil_of_right_ne_nil _ (List.cons_ne_nil _ _)
  rw [List.append_assoc, List.cons_append,
    propagate?_append hw hg₁ hpropagator hg₂ hg₃ hspacecraft hg₄, if_neg hne, hgap, hread]
  rfl

theorem report?_sound {cs : List Char} {c : Command} (h : report? cs = some c) :
    Denotes .report cs c := by
  simp only [report?, Option.bind_eq_bind, Option.bind_eq_some_iff] at h
  obtain ⟨_, hread₁, text, hread₂, last, hlast, hc⟩ := h
  obtain ⟨w, hw, rfl⟩ := keyword?_sound hread₁
  obtain ⟨⟨g, hg, rfl⟩, -⟩ := blanks?_sound hread₂
  cases hblank : isBlank last with
  | true =>
      rw [if_pos hblank] at hc
      cases hc
  | false =>
      rw [hblank] at hc
      obtain rfl := Option.some.inj hc
      have hend : EndsOutside isBlank (g ++ text) := by
        intro d hd
        rw [List.getLast?_append, hlast] at hd
        exact Option.some.inj hd ▸ hblank
      have hfields := fields_split (hg.startsOutside_not_isBlank text) hend
      rw [split_append_of_isGap hg.2] at hfields
      have hne : g ++ text ≠ [] := List.append_ne_nil_of_left_ne_nil hg.1 text
      exact Denotes.report hw hfields (hfields.ne_nil hne)

theorem report?_complete {w rest : List Char} {tokens : List (List Char)}
    (hw : IsKeyword "report" w) (hrest : Fields rest tokens) (htokens : tokens ≠ [])
    (hend : EndsOutside isBlank rest) :
    report? (w ++ rest) = some (.report (tokens.map String.ofList)) := by
  have hsplit := hrest.split_eq
  cases hrest with
  | nil => exact absurd rfl htokens
  | @cons g token rest tokens hg htoken hfields =>
      rw [List.append_assoc] at hend hsplit ⊢
      rw [split_append_of_isGap hg.2] at hsplit
      obtain ⟨c, token, rfl⟩ := List.exists_cons_of_ne_nil htoken.1
      have hblanks : blanks? (g ++ (c :: token ++ rest)) = some (c :: token ++ rest) :=
        blanks?_complete hg
          (startsOutside_cons (htoken.2 c List.mem_cons_self) (token ++ rest))
      obtain ⟨last, hlast⟩ : ∃ last, (c :: token ++ rest).getLast? = some last :=
        Option.isSome_iff_exists.1 (List.getLast?_isSome.2 (List.cons_ne_nil c _))
      have hblank : isBlank last = false := hend.of_append last hlast
      simp only [report?, keyword?_complete hw, hblanks, hlast, hblank, hsplit,
        Option.bind_eq_bind, Option.bind_some, Bool.false_eq_true, if_false]

theorem variableName?_sound {cs rest : List Char} {name : String}
    (h : variableName? cs = some (name, rest)) :
    ∃ n, IsName n ∧ name = String.ofList n ∧
      (cs = n ++ rest ∨ ∃ w g, IsKeyword "var" w ∧ IsSeparator g ∧ cs = w ++ g ++ n ++ rest) := by
  rw [variableName?, Option.orElse_eq_orElse, Option.orElse_eq_or, Option.or_eq_some_iff] at h
  rcases h with hdeclared | ⟨-, hname⟩
  · simp only [Option.bind_eq_some_iff] at hdeclared
    obtain ⟨_, ⟨_, hread₁, hread₂⟩, hread₃⟩ := hdeclared
    obtain ⟨w, hw, rfl⟩ := keyword?_sound hread₁
    obtain ⟨⟨g, hg, rfl⟩, -⟩ := blanks?_sound hread₂
    obtain ⟨n, hn, rfl, rfl⟩ := name?_sound hread₃
    exact ⟨n, hn, rfl, Or.inr ⟨w, g, hw, hg, by simp only [List.append_assoc]⟩⟩
  · obtain ⟨n, hn, rfl, rfl⟩ := name?_sound hname
    exact ⟨n, hn, rfl, Or.inl rfl⟩

/-- A name and an assignment to it are not the word `var` and another name. -/
theorem bind_name?_eq_none_of_assigns {name rest : List Char} {v : Value} (hname : IsName name)
    (hrest : Assigns rest v) :
    ((keyword? "var".toList (name ++ rest)).bind blanks?).bind name? = none := by
  rw [Option.eq_none_iff_forall_not_mem]
  rintro ⟨other, tail⟩ hother
  simp only [Option.mem_def, Option.bind_eq_some_iff] at hother
  obtain ⟨afterGap, ⟨afterWord, hread₁, hread₂⟩, hread₃⟩ := hother
  obtain ⟨w, hw, hline⟩ := keyword?_sound hread₁
  obtain ⟨⟨g, hg, rfl⟩, hstart⟩ := blanks?_sound hread₂
  -- Both readings take the same name from the line, so the rests are the same.
  have hread : name? (name ++ rest) = some (String.ofList name, rest) :=
    name?_complete hname (startsOutside_of_assigns hrest)
  rw [hline, name?_complete hw.isName_var (hg.startsOutside_isNamePart _)] at hread
  obtain ⟨-, rfl⟩ := Prod.mk.inj (Option.some.inj hread)
  obtain ⟨n, hn, rfl, -⟩ := name?_sound hread₃
  have hskip : skipBlanks (g ++ (n ++ tail)) = n ++ tail := skipBlanks_complete hg.2 hstart
  obtain ⟨value, hequals⟩ : ∃ value, skipBlanks (g ++ (n ++ tail)) = '=' :: value := by
    generalize g ++ (n ++ tail) = cs at hrest
    obtain @⟨g₁, g₂, text, hg₁, -, -⟩ := hrest
    refine ⟨g₂ ++ text, ?_⟩
    rw [List.append_assoc]
    exact skipBlanks_append_cons hg₁ rfl (g₂ ++ text)
  obtain ⟨c, n, rfl, hc, -⟩ := hn
  rw [hskip, List.cons_append] at hequals
  obtain ⟨rfl, -⟩ := List.cons.inj hequals
  cases hc

theorem assignment?_sound {cs : List Char} {c : Command} (h : assignment? cs = some c) :
    Denotes .variable cs c := by
  simp only [assignment?, Option.bind_eq_bind, Option.bind_eq_some_iff, Prod.exists,
    Option.some.injEq] at h
  obtain ⟨_, rest, hread, v, hvalue, rfl⟩ := h
  have hassigns := assigned?_sound hvalue
  obtain ⟨n, hn, rfl, rfl | ⟨w, g, hw, hg, rfl⟩⟩ := variableName?_sound hread
  · exact Denotes.assigned hn hassigns
  · exact Denotes.declared hw hg hn hassigns

theorem assignment?_complete {name rest : List Char} {v : Value} (hname : IsName name)
    (hrest : Assigns rest v) (hend : EndsOutside isBlank rest) :
    assignment? (name ++ rest) = some (.variable (String.ofList name) v) := by
  have hread : variableName? (name ++ rest) = some (String.ofList name, rest) := by
    rw [variableName?, bind_name?_eq_none_of_assigns hname hrest]
    exact name?_complete hname (startsOutside_of_assigns hrest)
  simp only [assignment?, hread, assigned?_complete hrest hend, Option.bind_eq_bind,
    Option.bind_some]

theorem declaration?_complete {w g name rest : List Char} {v : Value} (hw : IsKeyword "var" w)
    (hg : IsSeparator g) (hname : IsName name) (hrest : Assigns rest v)
    (hend : EndsOutside isBlank rest) :
    assignment? (w ++ g ++ name ++ rest) = some (.variable (String.ofList name) v) := by
  have hblanks := blanks?_complete hg (hname.startsOutside_isBlank rest)
  have hread : variableName? (w ++ g ++ name ++ rest) = some (String.ofList name, rest) := by
    rw [List.append_assoc, List.append_assoc, variableName?, keyword?_complete hw,
      Option.bind_some, hblanks, Option.bind_some,
      name?_complete hname (startsOutside_of_assigns hrest)]
    rfl
  simp only [assignment?, hread, assigned?_complete hrest hend, Option.bind_eq_bind,
    Option.bind_some]

theorem read?_sound {shape : Shape} {cs : List Char} {c : Command}
    (h : shape.read? cs = some c) : shape.Denotes cs c := by
  cases shape with
  | create => exact create?_sound h
  | propagate => exact propagate?_sound h
  | set => exact set?_sound h
  | report => exact report?_sound h
  | save => exact save?_sound h
  | ifThen =>
      obtain ⟨condition, hcondition, rfl⟩ := Option.map_eq_some_iff.1 h
      exact Denotes.ifThen (condition?_sound hcondition)
  | whileDo =>
      obtain ⟨condition, hcondition, rfl⟩ := Option.map_eq_some_iff.1 h
      exact Denotes.whileDo (condition?_sound hcondition)
  | otherwise =>
      obtain ⟨hw, rfl⟩ := bind_whole?_eq_some_iff.1 h
      exact Denotes.otherwise hw
  | endIf =>
      obtain ⟨hw, rfl⟩ := bind_whole?_eq_some_iff.1 h
      exact Denotes.endIf hw
  | endWhile =>
      obtain ⟨hw, rfl⟩ := bind_whole?_eq_some_iff.1 h
      exact Denotes.endWhile hw
  | _ => exact assignment?_sound h

theorem read?_complete {shape : Shape} {cs : List Char} {c : Command} (h : shape.Denotes cs c)
    (hend : EndsOutside isBlank cs) : shape.read? cs = some c := by
  cases h with
  | create hw hg₁ hkind hg₂ hname => exact create?_complete hw hg₁ hkind hg₂ hname
  | propagate hw hg₁ hpropagator hg₂ hg₃ hspacecraft hg₄ =>
      exact propagate?_append hw hg₁ hpropagator hg₂ hg₃ hspacecraft hg₄ []
  | propagateUntil hw hg₁ hpropagator hg₂ hg₃ hspacecraft hg₄ hg₅ hclause =>
      exact propagateUntil?_complete hw hg₁ hpropagator hg₂ hg₃ hspacecraft hg₄ hg₅ hclause
  | set hobject hproperty hrest =>
      exact set?_complete hobject hproperty hrest hend.of_append
  | report hw hrest htokens => exact report?_complete hw hrest htokens hend.of_append
  | save hw hg hobject => exact save?_complete hw hg hobject
  | ifThen hcondition =>
      exact Option.map_eq_some_iff.2 ⟨_, condition?_complete hcondition hend, rfl⟩
  | whileDo hcondition =>
      exact Option.map_eq_some_iff.2 ⟨_, condition?_complete hcondition hend, rfl⟩
  | otherwise hw => exact bind_whole?_eq_some_iff.2 ⟨hw, rfl⟩
  | endIf hw => exact bind_whole?_eq_some_iff.2 ⟨hw, rfl⟩
  | endWhile hw => exact bind_whole?_eq_some_iff.2 ⟨hw, rfl⟩
  | assigned hname hrest => exact assignment?_complete hname hrest hend.of_append
  | declared hw hg hname hrest =>
      exact declaration?_complete hw hg hname hrest hend.of_append

/-- A reader of a shape accepts the lines of that shape and returns what they denote. -/
theorem read?_eq_some_iff {shape : Shape} {cs : List Char} {c : Command}
    (hend : EndsOutside isBlank cs) : shape.read? cs = some c ↔ shape.Denotes cs c :=
  ⟨read?_sound, fun h => read?_complete h hend⟩

end Shape

open Text

theorem Command.read?_eq_some_iff {cs : List Char} {c : Command}
    (hend : EndsOutside isBlank cs) : Command.read? cs = some c ↔ c.IsDenoted cs := by
  rw [Command.read?, List.findSome?_eq_some_iff, Command.IsDenoted]
  constructor
  · rintro ⟨earlier, shape, later, horder, hread, hnone⟩
    refine ⟨earlier, shape, later, horder, (Shape.read?_eq_some_iff hend).1 hread, ?_⟩
    intro s hs c' hc'
    rw [← Shape.read?_eq_some_iff hend, hnone s hs] at hc'
    cases hc'
  · rintro ⟨earlier, shape, later, horder, hdenotes, hnone⟩
    refine ⟨earlier, shape, later, horder, (Shape.read?_eq_some_iff hend).2 hdenotes, ?_⟩
    intro s hs
    rw [Option.eq_none_iff_forall_ne_some]
    intro c' hc'
    exact hnone s hs c' ((Shape.read?_eq_some_iff hend).1 hc')

end FlightScript
