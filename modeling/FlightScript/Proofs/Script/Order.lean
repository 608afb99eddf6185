import FlightScript.Proofs.Command.Overlap
import FlightScript.Proofs.Script.Line

/-!
# The order of the shapes

The shapes can be tried in any order in which that of an assignment comes last
(`Statement.readBy_eq_read`): no line has two of the others. An assignment is therefore read as
one unless it assigns to the keyword of another shape, with blanks before the equals sign
(`Command.read?_assignment_iff`).
-/

namespace FlightScript

open Words Text

/-- A search finds the same in every order of a list if it cannot find two things. -/
theorem findSome?_perm {α β : Type} {f : α → Option β} {l m : List α} (hperm : l.Perm m)
    (hunique : ∀ a ∈ l, ∀ b ∈ l, (f a).isSome → (f b).isSome → a = b) :
    l.findSome? f = m.findSome? f := by
  have hiff : ∀ {n : List α}, n.Perm l → ∀ c, n.findSome? f = some c ↔ ∃ a ∈ l, f a = some c := by
    intro n hn c
    constructor
    · intro h
      obtain ⟨a, ha, hc⟩ := List.exists_of_findSome?_eq_some h
      exact ⟨a, hn.mem_iff.1 ha, hc⟩
    · rintro ⟨a, ha, hc⟩
      have hsome : (n.findSome? f).isSome :=
        List.findSome?_isSome_iff.2 ⟨a, hn.mem_iff.2 ha, by rw [hc]; rfl⟩
      obtain ⟨d, hd⟩ := Option.isSome_iff_exists.1 hsome
      obtain ⟨b, hb, hbd⟩ := List.exists_of_findSome?_eq_some hd
      obtain rfl := hunique a ha b (hn.mem_iff.1 hb) (by rw [hc]; rfl) (by rw [hbd]; rfl)
      rw [hd, ← hbd, hc]
  exact Option.ext fun c => (hiff (.refl l) c).trans (hiff hperm.symm c).symm

namespace Command

/-- The command of a line when the shapes are tried in a given order. -/
def readBy? (shapes : List Shape) (cs : List Char) : Option Command :=
  shapes.findSome? fun shape => shape.read? cs

theorem readBy?_append_variable (front : List Shape) (cs : List Char) :
    readBy? (front ++ [.variable]) cs = (readBy? front cs).or (Shape.assignment? cs) := by
  have hlast : [Shape.variable].findSome? (fun shape => shape.read? cs) = Shape.assignment? cs := by
    rw [List.findSome?_singleton]
    rfl
  rw [readBy?, List.findSome?_append, hlast]
  rfl

/-- The shapes but that of an assignment, in the order in which they are tried. -/
def keywordShapes : List Shape :=
  Shape.order.dropLast

theorem mem_keywordShapes {s : Shape} : s ∈ keywordShapes ↔ s ≠ .variable := by
  cases s <;> decide

theorem read?_eq_or (cs : List Char) :
    read? cs = (readBy? keywordShapes cs).or (Shape.assignment? cs) :=
  readBy?_append_variable keywordShapes cs

/-- All orders of the shapes in which that of an assignment is the last read a line alike. -/
theorem readBy?_eq_read? {shapes : List Shape} (hperm : shapes.Perm Shape.order)
    (hlast : shapes.getLast? = some .variable) (cs : List Char) :
    readBy? shapes cs = read? cs := by
  obtain ⟨front, rfl⟩ := List.getLast?_eq_some_iff.1 hlast
  have hfront : front.Perm keywordShapes := (List.perm_append_right_iff [Shape.variable]).1 hperm
  have hsame : readBy? front cs = readBy? keywordShapes cs := by
    apply findSome?_perm hfront
    intro s hs t ht hfits hfits'
    by_contra hne
    have hs' := mem_keywordShapes.1 (hfront.mem_iff.1 hs)
    have ht' := mem_keywordShapes.1 (hfront.mem_iff.1 ht)
    exact ht' (Shape.exists_of_fits hfits hfits' hne hs').1
  rw [readBy?_append_variable, read?_eq_or, hsame]

/-- A line is read as an assignment if it is one and has no other shape. -/
theorem read?_eq_variable_iff {cs : List Char} {name : String} {v : Value} :
    read? cs = some (.variable name v) ↔
      (∀ s : Shape, s ≠ .variable → ¬ s.Fits cs) ∧
        Shape.assignment? cs = some (.variable name v) := by
  rw [read?_eq_or, Option.or_eq_some_iff]
  have hnone : readBy? keywordShapes cs = none ↔ ∀ s : Shape, s ≠ .variable → ¬ s.Fits cs := by
    simp only [readBy?, List.findSome?_eq_none_iff, mem_keywordShapes, Shape.Fits,
      Option.not_isSome_iff_eq_none]
  have hother : readBy? keywordShapes cs ≠ some (.variable name v) := by
    intro h
    obtain ⟨s, hs, hread⟩ := List.exists_of_findSome?_eq_some h
    have hdenotes := Shape.read?_sound hread
    have hvariable : s = .variable := by
      cases hdenotes <;> rfl
    exact mem_keywordShapes.1 hs hvariable
  rw [hnone, or_iff_right hother]

/-- The keywords of which a name must be none to be assigned to after blanks. -/
def freeKeywords : List String :=
  ["report", "if", "while"]

theorem mem_freeKeywords {keyword : String} :
    keyword ∈ freeKeywords ↔ ∃ s : Shape, s.freeKeyword? = some keyword := by
  constructor
  · intro h
    simp only [freeKeywords, List.mem_cons, List.not_mem_nil, or_false] at h
    rcases h with rfl | rfl | rfl
    · exact ⟨.report, rfl⟩
    · exact ⟨.ifThen, rfl⟩
    · exact ⟨.whileDo, rfl⟩
  · rintro ⟨s, hs⟩
    have hall : ∀ s ∈ Shape.order, ∀ k ∈ s.freeKeyword?, k ∈ freeKeywords := by decide
    exact hall s s.mem_order keyword hs

variable {n g₁ g₂ v : List Char}

/-- An assignment to a name is one to a keyword if the name is the keyword and blanks follow. -/
theorem assignsTo_iff {keyword : String} (hn : IsName n) (hg₁ : IsGap g₁) (hg₂ : IsGap g₂)
    (hv : v ≠ []) (hstart : StartsOutside isBlank v) (hkeyword : keyword ∈ freeKeywords) :
    Shape.AssignsTo keyword (n ++ g₁ ++ '=' :: g₂ ++ v) ↔ g₁ ≠ [] ∧ IsKeyword keyword n := by
  constructor
  · intro h
    obtain ⟨s, hs⟩ := mem_freeKeywords.1 hkeyword
    have hassigned : Shape.Begins n (g₁ ++ '=' :: (g₂ ++ v)) .variable :=
      .assigned hn hg₁ hg₂ hv hstart rfl
    generalize hcs : n ++ g₁ ++ '=' :: g₂ ++ v = cs at h
    obtain @⟨w, g, g', v', hw, hg, -, -, -⟩ := h
    have hbegins : Shape.Begins w (g ++ '=' :: (g' ++ v')) s := .anything hs hw hg rfl
    simp only [List.append_assoc, List.cons_append] at hcs
    obtain ⟨rfl, hrest⟩ := hassigned.unique hbegins hcs
    refine ⟨?_, hw⟩
    rintro rfl
    exact hg.cons_ne_append rfl _ _ hrest
  · rintro ⟨hne, hw⟩
    exact .intro hw ⟨hne, hg₁⟩ hg₂ hv hstart

/-- An assignment is read as one if it does not assign to a keyword. -/
theorem read?_assignment_iff (hn : IsName n) (hg₁ : IsGap g₁) (hg₂ : IsGap g₂) (hv : v ≠ [])
    (hstart : StartsOutside isBlank v) (hend : EndsOutside isBlank v) :
    read? (n ++ g₁ ++ '=' :: g₂ ++ v) =
        some (.variable (String.ofList n) (.read (String.ofList v))) ↔
      ¬ (g₁ ≠ [] ∧ ∃ keyword ∈ freeKeywords, IsKeyword keyword n) := by
  have hend' : EndsOutside isBlank (n ++ g₁ ++ '=' :: g₂ ++ v) := hend.append hv _
  have hassigns : Assigns (g₁ ++ '=' :: g₂ ++ v) (.read (String.ofList v)) := .intro hg₁ hg₂ hv
  have hread : Shape.assignment? (n ++ g₁ ++ '=' :: g₂ ++ v) =
      some (.variable (String.ofList n) (.read (String.ofList v))) := by
    simp only [List.append_assoc] at hend' hassigns ⊢
    exact Shape.assignment?_complete hn hassigns hend'.of_append
  have hfits : Shape.variable.Fits (n ++ g₁ ++ '=' :: g₂ ++ v) := by
    rw [Shape.Fits, Shape.read?, hread]
    rfl
  rw [read?_eq_variable_iff, and_iff_left hread]
  constructor
  · rintro hnone ⟨hne, keyword, hkeyword, hw⟩
    obtain ⟨s, hs⟩ := mem_freeKeywords.1 hkeyword
    have hassigned := (assignsTo_iff hn hg₁ hg₂ hv hstart hkeyword).2 ⟨hne, hw⟩
    have hs' : s ≠ .variable := by
      rintro rfl
      cases hs
    exact hnone s hs' (Shape.fits_of_assignsTo hs hassigned hend')
  · intro hno s hs hfits'
    obtain ⟨-, keyword, hkeyword, hassigned⟩ := Shape.exists_of_fits hfits' hfits hs hs
    have hmem := mem_freeKeywords.2 ⟨s, hkeyword⟩
    obtain ⟨hne, hw⟩ := (assignsTo_iff hn hg₁ hg₂ hv hstart hmem).1 hassigned
    exact hno ⟨hne, keyword, hmem, hw⟩

end Command

namespace Statement

def commandBy? (shapes : List Shape) (cs : List Char) : Option Command :=
  match cs with
  | '%' :: rest => some (.comment (String.ofList (trimChars rest)))
  | _ => Command.readBy? shapes (dropSemicolon cs)

def readBy (shapes : List Shape) (line : Nat) (text : String) : Except LineError Statement :=
  match commandBy? shapes (trimChars text.toList) with
  | some command => .ok ⟨line, text, command⟩
  | none => .error (.unrecognized (trim text))

theorem readBy_order (line : Nat) (text : String) :
    readBy Shape.order line text = read line text :=
  rfl

theorem readBy_eq_read {shapes : List Shape} (hperm : shapes.Perm Shape.order)
    (hlast : shapes.getLast? = some .variable) (line : Nat) (text : String) :
    readBy shapes line text = read line text := by
  have hcommand : ∀ cs, commandBy? shapes cs = commandBy? Shape.order cs := by
    intro cs
    have hsame := Command.readBy?_eq_read? hperm hlast (dropSemicolon cs)
    simp only [commandBy?, hsame]
    rfl
  rw [← readBy_order, readBy, readBy, hcommand]

/-- A trimmed line that is no comment and ends without a semicolon is read as it stands. -/
theorem read_eq_ok_iff {u : List Char} (hstart : StartsOutside isSpace u)
    (hend : EndsOutside isSpace u) (hhead : u.head? ≠ some '%') (hlast : u.getLast? ≠ some ';')
    (line : Nat) (c : Command) :
    read line (String.ofList u) = .ok ⟨line, String.ofList u, c⟩ ↔ Command.read? u = some c := by
  have htrim : trimChars u = u :=
    trimsTo_iff.1 ⟨[], [], by simp, by simp, by simp, hstart, hend⟩
  rw [read, String.toList_ofList, htrim, command?_of_head_ne hhead, dropSemicolon, if_neg hlast]
  cases hread : Command.read? u with
  | none => simp
  | some d => simp

/-- A line has at most two shapes, and the second one is then that of an assignment to the keyword
of the first one, with blanks before the equals sign. So the order of the other shapes does not
matter, and a line that is an assignment is read as one unless it is to such a keyword. -/
theorem overlaps_only_on_keywords :
    (∀ cs, (Shape.fitting cs).length ≤ 2 ∧
      ∀ s t, Shape.fitting cs = [s, t] → t = .variable ∧
        ∃ keyword ∈ Command.freeKeywords, s.freeKeyword? = some keyword ∧
          Shape.AssignsTo keyword cs) ∧
    (∀ shapes : List Shape, shapes.Perm Shape.order → shapes.getLast? = some .variable →
      ∀ line text, readBy shapes line text = read line text) ∧
    ∀ (line : Nat) (n g₁ g₂ v : List Char), IsName n → IsGap g₁ → IsGap g₂ → v ≠ [] →
      trimChars v = v → v.getLast? ≠ some ';' →
      (read line (String.ofList (n ++ g₁ ++ '=' :: g₂ ++ v)) =
          .ok ⟨line, String.ofList (n ++ g₁ ++ '=' :: g₂ ++ v),
            .variable (String.ofList n) (.read (String.ofList v))⟩ ↔
        ¬ (g₁ ≠ [] ∧ ∃ keyword ∈ Command.freeKeywords, IsKeyword keyword n)) := by
  refine ⟨fun cs => ?_, fun shapes => readBy_eq_read, ?_⟩
  · rcases Shape.fitting_cases cs with hnil | ⟨s, hone⟩ | ⟨s, keyword, htwo, hs, hassigns⟩
    · rw [hnil]
      exact ⟨Nat.zero_le _, nofun⟩
    · rw [hone]
      exact ⟨Nat.le_succ 1, nofun⟩
    · rw [htwo]
      refine ⟨Nat.le_refl 2, fun s' t h => ?_⟩
      simp only [List.cons.injEq, and_true] at h
      obtain ⟨rfl, rfl⟩ := h
      exact ⟨rfl, keyword, Command.mem_freeKeywords.2 ⟨s, hs⟩, hs, hassigns⟩
  · intro line n g₁ g₂ v hn hg₁ hg₂ hv htrim hlast
    obtain ⟨-, -, -, -, -, hstart, hend⟩ := trimsTo_iff.2 htrim
    have hequals : '=' :: g₂ ++ v ≠ [] := List.cons_ne_nil _ _
    have hlast' : (n ++ g₁ ++ '=' :: g₂ ++ v).getLast? ≠ some ';' := by
      rwa [List.getLast?_append, Option.or_of_isSome (List.getLast?_isSome.2 hv)]
    obtain ⟨c, w, rfl, hc, hw⟩ := hn
    have hstart' : StartsOutside isSpace (c :: w ++ g₁ ++ '=' :: g₂ ++ v) :=
      startsOutside_cons (isSpace_of_isNameStart hc) _
    have hhead : (c :: w ++ g₁ ++ '=' :: g₂ ++ v).head? ≠ some '%' := by
      rintro hpercent
      obtain rfl := Option.some.inj hpercent
      cases hc
    rw [read_eq_ok_iff hstart' (hend.append hv _) hhead hlast']
    exact Command.read?_assignment_iff ⟨c, w, rfl, hc, hw⟩ hg₁ hg₂ hv
      (hstart.mono fun _ => isSpace_of_isBlank) (hend.mono fun _ => isSpace_of_isBlank)

/-- Trying the shapes backwards reads a line alike, and `Report` is assigned to only if no blank
follows it. -/
theorem overlaps_only_on_keywords_report :
    (∀ line text,
      readBy (Command.keywordShapes.reverse ++ [.variable]) line text = read line text) ∧
    (Shape.fitting "Report = 2".toList).length ≤ 2 ∧
    read 1 "Report= 2" = .ok ⟨1, "Report= 2", .variable "Report" (.read "2")⟩ ∧
    read 1 "Report = 2" ≠ .ok ⟨1, "Report = 2", .variable "Report" (.read "2")⟩ := by
  have hname : IsName "Report".toList :=
    ⟨'R', "eport".toList, rfl, by decide, List.all_eq_true.1 rfl⟩
  have hblank : IsGap [' '] := List.forall_mem_singleton.2 rfl
  have hassigned := overlaps_only_on_keywords.2.2 1 "Report".toList [] [' '] ['2'] hname
    (fun _ hc => by cases hc) hblank (by decide) (by decide) (by decide)
  have hreported := overlaps_only_on_keywords.2.2 1 "Report".toList [' '] [' '] ['2'] hname
    hblank hblank (by decide) (by decide) (by decide)
  refine ⟨overlaps_only_on_keywords.2.1 _ (by decide) rfl, (overlaps_only_on_keywords.1 _).1,
    hassigned.2 fun h => h.1 rfl, fun h => hreported.1 h ⟨List.cons_ne_nil _ _, ?_⟩⟩
  exact ⟨"report", List.mem_cons_self, rfl⟩

end Statement

end FlightScript
