import FlightScript.Proofs.Command.Recognition

/-!
# Lines with two shapes

A line of a shape begins with a name, and the name and what follows it tell the shapes apart
(`Begins`). Only an assignment to `report`, `if` or `while` that has blanks before its equals
sign has a second shape (`exists_of_fits`). So a line has two shapes at most, and one of them is
the last one that is tried (`fitting_cases`).
-/

namespace FlightScript

namespace Shape

open Words Text

/-- The keyword that a line of a shape begins with, where it begins with one. -/
def firstKeyword? : Shape → Option String
  | .create => some "create"
  | .propagate => some "propagate"
  | .report => some "report"
  | .save => some "save"
  | .ifThen => some "if"
  | .otherwise => some "else"
  | .endIf => some "endif"
  | .whileDo => some "while"
  | .endWhile => some "endwhile"
  | .set | .variable => none

/-- The keyword of a shape in which an equals sign may follow it. -/
def freeKeyword? : Shape → Option String
  | .report => some "report"
  | .ifThen => some "if"
  | .whileDo => some "while"
  | _ => none

def Fits (shape : Shape) (cs : List Char) : Prop :=
  (shape.read? cs).isSome

instance (shape : Shape) (cs : List Char) : Decidable (shape.Fits cs) :=
  inferInstanceAs (Decidable (_ = true))

/-- The shapes that a line has, in the order in which they are tried. -/
def fitting (cs : List Char) : List Shape :=
  order.filter fun shape => shape.Fits cs

/-- A line that assigns to a keyword, with blanks before the equals sign. -/
inductive AssignsTo (keyword : String) : List Char → Prop where
  | intro {w g₁ g₂ v : List Char} (hw : IsKeyword keyword w) (hg₁ : IsSeparator g₁)
      (hg₂ : IsGap g₂) (hv : v ≠ []) (hstart : StartsOutside isBlank v) :
      AssignsTo keyword (w ++ g₁ ++ '=' :: g₂ ++ v)

/-- A line of a shape begins with the name `w`, and `rest` follows it. -/
inductive Begins (w rest : List Char) : Shape → Prop where
  | anything {s : Shape} {keyword : String} {g text : List Char}
      (hs : s.freeKeyword? = some keyword) (hw : IsKeyword keyword w) (hg : IsSeparator g)
      (hrest : rest = g ++ text) : Begins w rest s
  | named {s : Shape} {keyword : String} {g name tail : List Char}
      (hs : s.firstKeyword? = some keyword) (hw : IsKeyword keyword w) (hg : IsSeparator g)
      (hname : IsName name) (hrest : rest = g ++ (name ++ tail)) : Begins w rest s
  | alone {s : Shape} {keyword : String} (hs : s.firstKeyword? = some keyword)
      (hw : IsKeyword keyword w) (hrest : rest = []) : Begins w rest s
  | property {tail : List Char} (hw : IsName w) (hrest : rest = '.' :: tail) : Begins w rest .set
  | assigned {g₁ g₂ v : List Char} (hw : IsName w) (hg₁ : IsGap g₁) (hg₂ : IsGap g₂) (hv : v ≠ [])
      (hstart : StartsOutside isBlank v) (hrest : rest = g₁ ++ '=' :: (g₂ ++ v)) :
      Begins w rest .variable
  | declared {g name tail : List Char} (hw : IsKeyword "var" w) (hg : IsSeparator g)
      (hname : IsName name) (hrest : rest = g ++ (name ++ tail)) : Begins w rest .variable

theorem firstKeyword?_of_freeKeyword? {s : Shape} {keyword : String}
    (h : s.freeKeyword? = some keyword) : s.firstKeyword? = some keyword := by
  cases s <;> first | exact h | cases h

theorem mem_order (s : Shape) : s ∈ order := by
  cases s <;> decide

/-- Different shapes have different keywords. -/
theorem firstKeyword?_inj {s t : Shape} {keyword : String} (hs : s.firstKeyword? = some keyword)
    (ht : t.firstKeyword? = some keyword) : s = t := by
  have hall : ∀ s ∈ order, ∀ t ∈ order, s.firstKeyword? ≠ none →
      s.firstKeyword? = t.firstKeyword? → s = t := by
    decide
  exact hall s s.mem_order t t.mem_order (by simp [hs]) (hs.trans ht.symm)

theorem isName_of_isKeyword {s : Shape} {keyword : String} {w : List Char}
    (hs : s.firstKeyword? = some keyword) (hw : IsKeyword keyword w) : IsName w := by
  have hall : ∀ s ∈ order, ∀ k ∈ s.firstKeyword?, k.toList.all Char.isAlpha ∧ k.toList ≠ [] := by
    decide
  obtain ⟨hletters, hne⟩ := hall s s.mem_order keyword hs
  exact hw.isName hletters hne

theorem firstKeyword?_ne_var {s : Shape} : s.firstKeyword? ≠ some "var" := by
  have hall : ∀ s ∈ order, s.firstKeyword? ≠ some "var" := by decide
  exact hall s s.mem_order

/-- A shape that begins with no keyword is an assignment. -/
theorem firstKeyword?_cases (s : Shape) :
    (∃ keyword, s.firstKeyword? = some keyword) ∨ s = .set ∨ s = .variable := by
  cases s with
  | set => exact Or.inr (Or.inl rfl)
  | «variable» => exact Or.inr (Or.inr rfl)
  | _ => exact Or.inl ⟨_, rfl⟩

namespace Begins

variable {s t : Shape} {w rest : List Char}

theorem isName (h : Begins w rest s) : IsName w := by
  cases h with
  | anything hs hw hg hrest => exact isName_of_isKeyword (firstKeyword?_of_freeKeyword? hs) hw
  | named hs hw hg hname hrest => exact isName_of_isKeyword hs hw
  | alone hs hw hrest => exact isName_of_isKeyword hs hw
  | property hw hrest => exact hw
  | assigned hw hg₁ hg₂ hv hstart hrest => exact hw
  | declared hw hg hname hrest => exact hw.isName_var

/-- The name goes on as long as it can. -/
theorem startsOutside (h : Begins w rest s) : StartsOutside isNamePart rest := by
  cases h with
  | anything hs hw hg hrest => exact hrest ▸ hg.startsOutside_isNamePart _
  | named hs hw hg hname hrest => exact hrest ▸ hg.startsOutside_isNamePart _
  | alone hs hw hrest => exact hrest ▸ startsOutside_nil
  | property hw hrest => exact hrest ▸ startsOutside_cons rfl _
  | assigned hw hg₁ hg₂ hv hstart hrest => exact hrest ▸ hg₁.startsOutside_isNamePart rfl _
  | declared hw hg hname hrest => exact hrest ▸ hg.startsOutside_isNamePart _

theorem isKeyword (h : Begins w rest s) {keyword : String} (hs : s.firstKeyword? = some keyword) :
    IsKeyword keyword w := by
  cases h with
  | anything hs' hw hg hrest =>
      obtain rfl := Option.some.inj (hs.symm.trans (firstKeyword?_of_freeKeyword? hs'))
      exact hw
  | named hs' hw hg hname hrest =>
      obtain rfl := Option.some.inj (hs.symm.trans hs')
      exact hw
  | alone hs' hw hrest =>
      obtain rfl := Option.some.inj (hs.symm.trans hs')
      exact hw
  | property | assigned | declared => cases hs

/-- After the first name a point stands in an assignment to a property only. -/
theorem eq_set {tail : List Char} (h : Begins w ('.' :: tail) s) : s = .set := by
  cases h with
  | property => rfl
  | alone hs hw hrest => cases hrest
  | anything hs hw hg hrest => exact absurd hrest (hg.cons_ne_append rfl _ _)
  | named hs hw hg hname hrest => exact absurd hrest (hg.cons_ne_append rfl _ _)
  | declared hw hg hname hrest => exact absurd hrest (hg.cons_ne_append rfl _ _)
  | @assigned g₁ g₂ v hw hg₁ hg₂ hv hstart hrest =>
      cases g₁ with
      | nil => cases hrest
      | cons c g₁ =>
          have hg : IsSeparator (c :: g₁) := ⟨List.cons_ne_nil c g₁, hg₁⟩
          exact absurd hrest (hg.cons_ne_append rfl _ _)

theorem exists_point (h : Begins w rest .set) : ∃ tail, rest = '.' :: tail := by
  cases h with
  | property hw hrest => exact ⟨_, hrest⟩
  | anything hs => cases hs
  | named hs => cases hs
  | alone hs => cases hs

/-- A line that begins with a keyword of another shape and has the shape of an assignment assigns
to that keyword, and the keyword is one that an equals sign may follow. -/
theorem exists_freeKeyword? (h : Begins w rest s) (hvariable : Begins w rest .variable)
    {keyword : String} (hs : s.firstKeyword? = some keyword) :
    s.freeKeyword? = some keyword ∧ AssignsTo keyword (w ++ rest) := by
  have hw := h.isKeyword hs
  cases hvariable with
  | anything hs' => cases hs'
  | named hs' => cases hs'
  | alone hs' => cases hs'
  | declared hw' =>
      have hvar : keyword = "var" := String.toList_inj.1 (hw.symm.trans hw')
      exact absurd (hvar ▸ hs) firstKeyword?_ne_var
  | @assigned g₁ g₂ v _ hg₁ hg₂ hv hstart hequals =>
      have hskip : skipBlanks rest = '=' :: (g₂ ++ v) := by
        rw [hequals]
        exact skipBlanks_append_cons hg₁ rfl _
      cases h with
      | alone hs' hw' hrest =>
          rw [hrest] at hequals
          exact absurd hequals.symm (by simp)
      | named hs' hw' hg hname hrest =>
          rw [hrest, skipBlanks_complete hg.2 (hname.startsOutside_isBlank _)] at hskip
          obtain ⟨c, name, rfl, hc, -⟩ := hname
          obtain ⟨rfl, -⟩ := List.cons.inj hskip
          cases hc
      | @anything _ keyword' g text hs' hw' hg hrest =>
          obtain rfl := Option.some.inj (hs.symm.trans (firstKeyword?_of_freeKeyword? hs'))
          have hg₁ne : g₁ ≠ [] := by
            rintro rfl
            exact hg.cons_ne_append rfl _ _ (hequals.symm.trans hrest)
          have hassigns := AssignsTo.intro hw ⟨hg₁ne, hg₁⟩ hg₂ hv hstart
          simp only [List.append_assoc, List.cons_append] at hassigns
          exact ⟨hs', hequals ▸ hassigns⟩
      | assigned | property | declared => cases hs

/-- A line begins in one way. -/
theorem unique {w' rest' : List Char} (h : Begins w rest s) (h' : Begins w' rest' t)
    (heq : w ++ rest = w' ++ rest') : w = w' ∧ rest = rest' := by
  have hread := name?_complete h.isName h.startsOutside
  rw [heq, name?_complete h'.isName h'.startsOutside] at hread
  obtain ⟨hname, hrest⟩ := Prod.mk.inj (Option.some.inj hread)
  exact ⟨(String.ofList_inj.1 hname).symm, hrest.symm⟩

end Begins

/-! ### Where a line begins -/

theorem exists_assigned {cs : List Char} {v : Value} (h : assigned? cs = some v) :
    ∃ g₁ g₂ text, IsGap g₁ ∧ IsGap g₂ ∧ text ≠ [] ∧ StartsOutside isBlank text ∧
      cs = g₁ ++ '=' :: (g₂ ++ text) := by
  simp only [assigned?, Option.bind_eq_bind, Option.bind_eq_some_iff, symbol?_eq_some_iff,
    nonempty?_eq_some_iff] at h
  obtain ⟨rest, hequals, text, ⟨rfl, hne⟩, -⟩ := h
  obtain ⟨g₁, hg₁, hcs⟩ := skipBlanks_sound cs
  obtain ⟨g₂, hg₂, hrest⟩ := skipBlanks_sound rest
  refine ⟨g₁, g₂, skipBlanks rest, hg₁, hg₂, hne, startsOutside_skipBlanks rest, ?_⟩
  rw [← hrest, ← hequals, ← hcs]

theorem exists_begins_variable {cs : List Char} {c : Command} (h : assignment? cs = some c) :
    ∃ w rest, cs = w ++ rest ∧ Begins w rest .variable := by
  simp only [assignment?, Option.bind_eq_bind, Option.bind_eq_some_iff, Prod.exists] at h
  obtain ⟨name, rest, hname, v, hvalue, -⟩ := h
  obtain ⟨g₁, g₂, text, hg₁, hg₂, hne, hstart, rfl⟩ := exists_assigned hvalue
  obtain ⟨n, hn, -, rfl | ⟨w, g, hw, hg, rfl⟩⟩ := variableName?_sound hname
  · exact ⟨n, _, rfl, .assigned hn hg₁ hg₂ hne hstart rfl⟩
  · refine ⟨w, g ++ (n ++ (g₁ ++ '=' :: (g₂ ++ text))), ?_, .declared hw hg hn rfl⟩
    simp only [List.append_assoc]

/-- A line of a shape begins as its shape says. -/
theorem exists_begins {s : Shape} {cs : List Char} (h : s.Fits cs) :
    ∃ w rest, cs = w ++ rest ∧ Begins w rest s := by
  obtain ⟨c, hread⟩ := Option.isSome_iff_exists.1 h
  have hdenotes := read?_sound hread
  cases hdenotes with
  | create hw hg₁ hkind hg₂ hname =>
      simp only [List.append_assoc]
      exact ⟨_, _, rfl, .named rfl hw hg₁ hkind rfl⟩
  | propagate hw hg₁ hpropagator hg₂ hg₃ hspacecraft hg₄ =>
      simp only [List.append_assoc]
      exact ⟨_, _, rfl, .named rfl hw hg₁ hpropagator rfl⟩
  | propagateUntil hw hg₁ hpropagator hg₂ hg₃ hspacecraft hg₄ hg₅ hclause =>
      simp only [List.append_assoc]
      exact ⟨_, _, rfl, .named rfl hw hg₁ hpropagator rfl⟩
  | set hobject hproperty hrest =>
      rw [List.append_assoc, List.cons_append]
      exact ⟨_, _, rfl, .property hobject rfl⟩
  | report hw hrest htokens =>
      cases hrest with
      | nil => exact absurd rfl htokens
      | cons hg htoken hrest =>
          rw [List.append_assoc]
          exact ⟨_, _, rfl, .anything rfl hw hg rfl⟩
  | save hw hg hobject =>
      rw [List.append_assoc]
      exact ⟨_, _, rfl, .named rfl hw hg hobject (congrArg _ (List.append_nil _).symm)⟩
  | ifThen hcondition =>
      obtain ⟨hw, hg, -⟩ := hcondition
      rw [List.append_assoc]
      exact ⟨_, _, rfl, .anything rfl hw hg rfl⟩
  | whileDo hcondition =>
      obtain ⟨hw, hg, -⟩ := hcondition
      rw [List.append_assoc]
      exact ⟨_, _, rfl, .anything rfl hw hg rfl⟩
  | otherwise hw => exact ⟨_, [], (List.append_nil _).symm, .alone rfl hw rfl⟩
  | endIf hw => exact ⟨_, [], (List.append_nil _).symm, .alone rfl hw rfl⟩
  | endWhile hw => exact ⟨_, [], (List.append_nil _).symm, .alone rfl hw rfl⟩
  | assigned | declared => exact exists_begins_variable hread

/-! ### Two shapes of one line -/

/-- Of two shapes of a line one is that of an assignment, and the line assigns to the keyword of
the other. -/
theorem exists_of_fits {s t : Shape} {cs : List Char} (hs : s.Fits cs) (ht : t.Fits cs)
    (hne : s ≠ t) (hvariable : s ≠ .variable) :
    t = .variable ∧ ∃ keyword, s.freeKeyword? = some keyword ∧ AssignsTo keyword cs := by
  obtain ⟨w, rest, rfl, hbegins⟩ := exists_begins hs
  obtain ⟨w', rest', heq, hbegins'⟩ := exists_begins ht
  obtain ⟨rfl, rfl⟩ := hbegins.unique hbegins' heq
  rcases firstKeyword?_cases s with ⟨keyword, hkeyword⟩ | rfl | rfl
  · rcases firstKeyword?_cases t with ⟨keyword', hkeyword'⟩ | rfl | rfl
    · -- The line begins with both keywords, so they are the same.
      have hw := hbegins.isKeyword hkeyword
      have hw' := hbegins'.isKeyword hkeyword'
      obtain rfl := String.toList_inj.1 (hw.symm.trans hw')
      exact absurd (firstKeyword?_inj hkeyword hkeyword') hne
    · obtain ⟨tail, rfl⟩ := hbegins'.exists_point
      exact absurd hbegins.eq_set hne
    · exact ⟨rfl, keyword, hbegins.exists_freeKeyword? hbegins' hkeyword⟩
  · obtain ⟨tail, rfl⟩ := hbegins.exists_point
    exact absurd hbegins'.eq_set.symm hne
  · exact absurd rfl hvariable

theorem mem_fitting {s : Shape} {cs : List Char} : s ∈ fitting cs ↔ s.Fits cs := by
  rw [fitting, List.mem_filter, decide_eq_true_eq]
  exact and_iff_right s.mem_order

/-- A line has at most two shapes. If it has two, the second one is that of an assignment, and the
line assigns to the keyword of the first one. -/
theorem fitting_cases (cs : List Char) :
    fitting cs = [] ∨ (∃ s, fitting cs = [s]) ∨
      ∃ s keyword, fitting cs = [s, .variable] ∧ s.freeKeyword? = some keyword ∧
        AssignsTo keyword cs := by
  have horder : order.Pairwise fun s t => s ≠ t ∧ s ≠ .variable := by decide
  have hpairs : (fitting cs).Pairwise fun s t => s ≠ t ∧ s ≠ .variable :=
    horder.sublist List.filter_sublist
  have hfits : ∀ s ∈ fitting cs, s.Fits cs := fun s => mem_fitting.1
  generalize fitting cs = shapes at hpairs hfits
  match shapes, hpairs, hfits with
  | [], _, _ => exact Or.inl rfl
  | [s], _, _ => exact Or.inr (Or.inl ⟨s, rfl⟩)
  | s :: t :: rest, hpairs, hfits =>
      obtain ⟨hs, hrest⟩ := List.pairwise_cons.1 hpairs
      obtain ⟨hne, hvariable⟩ := hs t List.mem_cons_self
      obtain ⟨rfl, keyword, hkeyword, hassigns⟩ := exists_of_fits (hfits s List.mem_cons_self)
        (hfits t (List.mem_cons_of_mem s List.mem_cons_self)) hne hvariable
      cases rest with
      | nil => exact Or.inr (Or.inr ⟨s, keyword, rfl, hkeyword, hassigns⟩)
      | cons u rest =>
          obtain ⟨ht, -⟩ := List.pairwise_cons.1 hrest
          exact absurd rfl (ht u List.mem_cons_self).2

theorem Denotes.fits {s : Shape} {cs : List Char} {c : Command} (h : s.Denotes cs c)
    (hend : EndsOutside isBlank cs) : s.Fits cs :=
  Option.isSome_iff_exists.2 ⟨c, read?_complete h hend⟩

/-- A line that assigns to the keyword of a shape has that shape. -/
theorem fits_of_assignsTo {s : Shape} {keyword : String} {cs : List Char}
    (hs : s.freeKeyword? = some keyword) (h : AssignsTo keyword cs)
    (hend : EndsOutside isBlank cs) : s.Fits cs := by
  obtain @⟨w, g₁, g₂, v, hw, hg₁, hg₂, hv, -⟩ := h
  have hne : '=' :: g₂ ++ v ≠ [] := List.cons_ne_nil _ _
  rw [List.append_assoc (w ++ g₁)] at hend ⊢
  cases s with
  | report =>
      obtain rfl := Option.some.inj hs
      rw [List.append_assoc] at hend ⊢
      have hfields := fields_split (hg₁.startsOutside_not_isBlank _) hend.of_append
      exact (Denotes.report hw hfields
        (hfields.ne_nil (List.append_ne_nil_of_left_ne_nil hg₁.1 _))).fits hend
  | ifThen =>
      obtain rfl := Option.some.inj hs
      exact (Denotes.ifThen (.intro hw hg₁ hne)).fits hend
  | whileDo =>
      obtain rfl := Option.some.inj hs
      exact (Denotes.whileDo (.intro hw hg₁ hne)).fits hend
  | _ => cases hs

end Shape

end FlightScript
