import FlightScript.JsonValue
import FlightScript.Proofs.Decimal.ReadBack

/-!
# The text of a tree tells the tree

A tree is told by its text, but for the numbers that are not finite: they are all written as
`null` (`toText_eq_toText_iff`). What follows a tree in a text never goes on with a number, so
that the text of a tree ends where it ends, whatever comes after it (`toText_append_inj`). The
induction over trees is in `induct`.
-/

namespace FlightScript

namespace JsonValue

open Text Decimal

variable {α : Type} {u v : List Char}

/-! ### Trees -/

mutual

/-- The tree with `null` in the place of every number that is not finite. -/
def printed : JsonValue → JsonValue
  | .number x => if x.isFinite then .number x else .null
  | .array items => .array (printedItems items)
  | .object members => .object (printedMembers members)
  | j => j

def printedItems : List JsonValue → List JsonValue
  | [] => []
  | item :: rest => printed item :: printedItems rest

def printedMembers : List (String × JsonValue) → List (String × JsonValue)
  | [] => []
  | (name, value) :: rest => (name, printed value) :: printedMembers rest

end

theorem printedItems_eq_map (items : List JsonValue) : printedItems items = items.map printed := by
  induction items with
  | nil => rfl
  | cons item rest ih => rw [printedItems, ih, List.map_cons]

theorem printedMembers_eq_map (members : List (String × JsonValue)) :
    printedMembers members = members.map (Prod.map id printed) := by
  induction members with
  | nil => rfl
  | cons member rest ih => rw [printedMembers, ih, List.map_cons, Prod.map_apply, id]

theorem itemTexts_eq_map (depth : Nat) (items : List JsonValue) :
    itemTexts depth items = items.map (toText depth) := by
  induction items with
  | nil => rfl
  | cons item rest ih => rw [itemTexts, ih, List.map_cons]

def memberText (depth : Nat) (member : String × JsonValue) : String :=
  quote member.1 ++ ": " ++ toText depth member.2

theorem memberTexts_eq_map (depth : Nat) (members : List (String × JsonValue)) :
    memberTexts depth members = members.map (memberText depth) := by
  induction members with
  | nil => rfl
  | cons member rest ih => rw [memberTexts, ih, List.map_cons, memberText]

/-- What holds of a tree if it holds of its items and of the values of its members holds of
every tree. -/
@[elab_as_elim]
theorem induct {motive : JsonValue → Prop} (null : motive .null) (bool : ∀ b, motive (.bool b))
    (natural : ∀ n, motive (.natural n)) (number : ∀ x, motive (.number x))
    (string : ∀ s, motive (.string s))
    (array : ∀ items, (∀ item ∈ items, motive item) → motive (.array items))
    (object : ∀ members, (∀ member ∈ members, motive member.2) → motive (.object members))
    (j : JsonValue) : motive j :=
  match j with
  | .null => null
  | .bool b => bool b
  | .natural n => natural n
  | .number x => number x
  | .string s => string s
  | .array items =>
      array items fun item _ => induct null bool natural number string array object item
  | .object members =>
      object members fun member h =>
        have := List.sizeOf_lt_of_mem h
        induct null bool natural number string array object member.2
termination_by sizeOf j
decreasing_by
  all_goals simp_wf
  · have := List.sizeOf_lt_of_mem ‹_ ∈ items›
    omega
  · obtain ⟨name, value⟩ := member
    simp only [Prod.mk.sizeOf_spec] at this ⊢
    omega

/-! ### Texts between quotes -/

def hexValue (c : Char) : Nat :=
  ((List.range 16).find? fun n => hexDigit n = c).getD 0

theorem hexValue_hexDigit : ∀ n < 16, hexValue (hexDigit n) = n := by
  decide

/-- The first character of a text in quotes, and what is left. -/
def unescape? : List Char → Option (Char × List Char)
  | [] => none
  | '"' :: _ => none
  | '\\' :: '"' :: rest => some ('"', rest)
  | '\\' :: '\\' :: rest => some ('\\', rest)
  | '\\' :: 'n' :: rest => some ('\n', rest)
  | '\\' :: 'r' :: rest => some ('\r', rest)
  | '\\' :: 't' :: rest => some ('\t', rest)
  | '\\' :: 'b' :: rest => some ('\x08', rest)
  | '\\' :: 'f' :: rest => some ('\x0c', rest)
  | '\\' :: 'u' :: '0' :: '0' :: a :: b :: rest =>
    some (Char.ofNat (16 * hexValue a + hexValue b), rest)
  | c :: rest => some (c, rest)

theorem unescape?_escape (c : Char) (u : List Char) : unescape? (escape c ++ u) = some (c, u) := by
  by_cases hnamed : c ∈ ['"', '\\', '\n', '\r', '\t', '\x08', '\x0c']
  · simp only [List.mem_cons, List.not_mem_nil, or_false] at hnamed
    rcases hnamed with rfl | rfl | rfl | rfl | rfl | rfl | rfl <;> rfl
  · simp only [List.mem_cons, List.not_mem_nil, or_false, not_or] at hnamed
    simp only [escape, hnamed, if_false]
    split
    · next hcontrol =>
      have hnat : 16 * (c.toNat / 16) + c.toNat % 16 = c.toNat := Nat.div_add_mod c.toNat 16
      have hchar : unescape? ('\\' :: 'u' :: '0' :: '0' :: hexDigit (c.toNat / 16) ::
          hexDigit (c.toNat % 16) :: u) = some (Char.ofNat (16 *
            hexValue (hexDigit (c.toNat / 16)) + hexValue (hexDigit (c.toNat % 16))), u) := rfl
      rw [hexValue_hexDigit _ (by omega), hexValue_hexDigit _ (by omega), hnat,
        Char.ofNat_toNat] at hchar
      exact hchar
    · rw [List.singleton_append, unescape?.eq_def]
      split <;> simp_all

/-- The quote at the end ends a text in quotes, for none of its own is left bare. -/
theorem escapes_append_inj {cs ds : List Char}
    (h : cs.flatMap escape ++ '"' :: u = ds.flatMap escape ++ '"' :: v) : cs = ds ∧ u = v := by
  induction cs generalizing ds with
  | nil =>
      cases ds with
      | nil => exact ⟨rfl, (List.cons.inj h).2⟩
      | cons d ds =>
          rw [List.flatMap_cons, List.append_assoc] at h
          have hread := congrArg unescape? h
          rw [unescape?_escape] at hread
          cases hread
  | cons c cs ih =>
      rw [List.flatMap_cons, List.append_assoc] at h
      have hread := congrArg unescape? h
      rw [unescape?_escape] at hread
      cases ds with
      | nil => cases hread
      | cons d ds =>
          rw [List.flatMap_cons, List.append_assoc, unescape?_escape] at hread
          obtain ⟨rfl, hrest⟩ := Prod.mk.inj (Option.some.inj hread)
          obtain ⟨rfl, huv⟩ := ih hrest
          exact ⟨rfl, huv⟩

theorem toList_quote (s : String) : (quote s).toList = '"' :: (s.toList.flatMap escape ++ ['"']) :=
  String.toList_ofList

theorem quote_append_inj {s t : String} (h : (quote s).toList ++ u = (quote t).toList ++ v) :
    s = t ∧ u = v := by
  simp only [toList_quote, List.cons_append, List.append_assoc, List.nil_append] at h
  obtain ⟨hst, huv⟩ := escapes_append_inj (List.cons.inj h).2
  exact ⟨String.toList_inj.1 hst, huv⟩

/-! ### Words -/

/-- What follows does not go on with a number. -/
def IsEnd (u : List Char) : Prop :=
  StartsOutside isNumeral u

theorem numeral_append_inj {cs ds : List Char} (hcs : ∀ c ∈ cs, isNumeral c)
    (hds : ∀ c ∈ ds, isNumeral c) (hu : IsEnd u) (hv : IsEnd v) (h : cs ++ u = ds ++ v) :
    cs = ds ∧ u = v := by
  have htake := congrArg (List.takeWhile isNumeral) h
  have hdrop := congrArg (List.dropWhile isNumeral) h
  rw [takeWhile_append_of_startsOutside hcs hu, takeWhile_append_of_startsOutside hds hv] at htake
  rw [dropWhile_append_of_startsOutside hcs hu, dropWhile_append_of_startsOutside hds hv] at hdrop
  exact ⟨htake, hdrop⟩

/-- The character with which the text of a tree begins, unless it is a word. -/
def mark : JsonValue → Option Char
  | .string _ => some '"'
  | .array _ => some '['
  | .object _ => some '\x7b'
  | _ => none

def ofWord (cs : List Char) : JsonValue :=
  if cs = "true".toList then .bool true
  else if cs = "false".toList then .bool false
  else if cs.all Char.isDigit then .natural (natOfDigits cs)
  else
    match Double.read? cs with
    | some x => .number x
    | none => .null

theorem toList_toText_natural (depth n : Nat) :
    (toText depth (.natural n)).toList = Nat.toDigits 10 n := by
  change (Nat.repr n).toList = _
  simp [Nat.repr]

/-- The characters are a word, and the word is that of the tree. -/
structure IsWordOf (cs : List Char) (j : JsonValue) : Prop where
  forall_isNumeral : ∀ c ∈ cs, isNumeral c
  ne_nil : cs ≠ []
  ofWord_eq : ofWord cs = j

theorem forall_isNumeral_of_isAlpha {name : String} (h : name.toList.all Char.isAlpha) :
    ∀ c ∈ name.toList, isNumeral c :=
  fun c hc => isNumeral_of_isAlpha (List.all_eq_true.1 h c hc)

theorem isWordOf_null : IsWordOf "null".toList .null where
  forall_isNumeral := forall_isNumeral_of_isAlpha rfl
  ne_nil := by decide
  ofWord_eq := by
    have hnone : Double.read? "null".toList = none := by decide
    rw [ofWord, if_neg (by decide), if_neg (by decide), if_neg (by decide), hnone]

theorem isWordOf_true : IsWordOf "true".toList (.bool true) where
  forall_isNumeral := forall_isNumeral_of_isAlpha rfl
  ne_nil := by decide
  ofWord_eq := if_pos rfl

theorem isWordOf_false : IsWordOf "false".toList (.bool false) where
  forall_isNumeral := forall_isNumeral_of_isAlpha rfl
  ne_nil := by decide
  ofWord_eq := by rw [ofWord, if_neg (by decide), if_pos rfl]

theorem isWordOf_toDigits (n : Nat) : IsWordOf (Nat.toDigits 10 n) (.natural n) where
  forall_isNumeral := fun _ hc => isNumeral_of_isDigit (isDigit_of_mem_toDigits hc)
  ne_nil := Nat.toDigits_ne_nil
  ofWord_eq := by
    have hdigits : ∀ c ∈ Nat.toDigits 10 n, c.isDigit := fun c => isDigit_of_mem_toDigits
    have hname : ∀ cs : List Char, (∃ c ∈ cs, c.isDigit = false) → Nat.toDigits 10 n ≠ cs := by
      rintro cs ⟨c, hc, hfalse⟩ rfl
      rw [hdigits c hc] at hfalse
      cases hfalse
    rw [ofWord, if_neg (hname _ ⟨'t', by decide, rfl⟩), if_neg (hname _ ⟨'f', by decide, rfl⟩),
      if_pos (List.all_eq_true.2 hdigits), natOfDigits_toDigits]

/-- A number is read back from its word, which has more in it than digits. -/
theorem isWordOf_scientific (x : Float) : IsWordOf (Double.scientific x).toList (.number x) := by
  have hread := Double.read?_scientific x
  obtain ⟨c, hc, hdigit⟩ := Double.exists_not_isDigit_scientific x
  have hname : ∀ cs : List Char, Double.read? cs = none → (Double.scientific x).toList ≠ cs := by
    rintro cs hnone heq
    rw [heq, hnone] at hread
    cases hread
  have hdigits : ¬ (Double.scientific x).toList.all Char.isDigit := fun hall => by
    rw [List.all_eq_true.1 hall c hc] at hdigit
    cases hdigit
  refine ⟨Double.forall_isNumeral_of_read? hread, List.ne_nil_of_mem hc, ?_⟩
  rw [ofWord, if_neg (hname _ (by decide)), if_neg (hname _ (by decide)), if_neg hdigits, hread]

/-- A tree without a mark is written as a word. -/
theorem isWordOf_toText {j : JsonValue} (h : j.mark = none) (depth : Nat) :
    IsWordOf (toText depth j).toList j.printed := by
  cases j with
  | null => exact isWordOf_null
  | bool b =>
      cases b with
      | true => exact isWordOf_true
      | false => exact isWordOf_false
  | natural n => exact toList_toText_natural depth n ▸ isWordOf_toDigits n
  | number x =>
      rw [toText, numberText, printed]
      by_cases hfinite : x.isFinite
      · rw [if_pos hfinite, if_pos hfinite]
        exact isWordOf_scientific x
      · rw [if_neg hfinite, if_neg hfinite]
        exact isWordOf_null
  | _ => cases h

/-! ### Parts between marks -/

variable {β : Type} {f : α → String} {g : α → β} {as : List α}

/-- What is printed of an element tells what it is and where its text ends. -/
def ReadsUniquely (f : α → String) (g : α → β) (a : α) : Prop :=
  ∀ (b : α) (u v : List Char), IsEnd u → IsEnd v →
    (f a).toList ++ u = (f b).toList ++ v → g a = g b ∧ u = v

theorem toList_newLine (depth : Nat) :
    (newLine depth).toList = '\n' :: List.replicate (2 * depth) ' ' :=
  String.toList_ofList

/-- The parts after the first one, as they stand between the marks. -/
def following (f : α → String) (depth : Nat) (as : List α) : List Char :=
  as.flatMap fun a => ',' :: ((newLine depth).toList ++ (f a).toList)

theorem toList_enclose_nil (first last : String) (depth : Nat) :
    (enclose first last depth []).toList = first.toList ++ last.toList :=
  String.toList_append

theorem toList_enclose_cons (first last : String) (depth : Nat) (a : α) (as : List α) :
    (enclose first last depth ((a :: as).map f)).toList =
      first.toList ++ ((newLine (depth + 1)).toList ++ ((f a).toList ++
        (following f (depth + 1) as ++ ((newLine depth).toList ++ last.toList)))) := by
  have hjoined : ((("," ++ newLine (depth + 1)).intercalate ((a :: as).map f))).toList =
      (f a).toList ++ following f (depth + 1) as := by
    induction as generalizing a with
    | nil => simp [following]
    | cons b as ih =>
        rw [List.map_cons, List.map_cons, String.intercalate_cons_cons, ← List.map_cons]
        simp only [String.toList_append, ih, following, List.flatMap_cons]
        simp
  have hne : ((a :: as).map f).isEmpty = false := rfl
  simp only [enclose, hne, Bool.false_eq_true, if_false, String.toList_append, hjoined,
    List.append_assoc]

theorem isEnd_following (depth : Nat) (as : List α) (u : List Char) :
    IsEnd (following f depth as ++ '\n' :: u) := by
  cases as with
  | nil => exact startsOutside_cons rfl u
  | cons a as => exact startsOutside_cons rfl _

theorem following_append_inj {depth : Nat} {bs : List α} (h : ∀ a ∈ as, ReadsUniquely f g a)
    (huv : following f depth as ++ '\n' :: u = following f depth bs ++ '\n' :: v) :
    as.map g = bs.map g ∧ u = v := by
  induction as generalizing bs with
  | nil =>
      cases bs with
      | nil => exact ⟨rfl, (List.cons.inj huv).2⟩
      | cons b bs => exact absurd (List.cons.inj huv).1 (by decide)
  | cons a as ih =>
      cases bs with
      | nil => exact absurd (List.cons.inj huv).1 (by decide)
      | cons b bs =>
        obtain ⟨ha, has⟩ := List.forall_mem_cons.1 h
        simp only [following, List.flatMap_cons, List.cons_append, List.append_assoc] at huv
        have hrest := List.append_cancel_left (List.cons.inj huv).2
        obtain ⟨hab, hfollowing⟩ := ha b _ _ (isEnd_following depth as u)
          (isEnd_following depth bs v) hrest
        obtain ⟨hmap, huv⟩ := ih has hfollowing
        exact ⟨by rw [List.map_cons, List.map_cons, hab, hmap], huv⟩

/-- Parts between two marks are told by their text, if every part is. -/
theorem enclose_append_inj {first last : String} {depth : Nat} {bs : List α} {c : Char}
    (hlast : last.toList = [c]) (hc : c ≠ '\n') (h : ∀ a ∈ as, ReadsUniquely f g a)
    (huv : (enclose first last depth (as.map f)).toList ++ u =
      (enclose first last depth (bs.map f)).toList ++ v) :
    as.map g = bs.map g ∧ u = v := by
  have hempty : ∀ (a : α) (as : List α) (u v : List Char),
      (enclose first last depth []).toList ++ u ≠
        (enclose first last depth ((a :: as).map f)).toList ++ v := by
    intro a as u v heq
    rw [toList_enclose_cons, toList_newLine, toList_enclose_nil, hlast, List.append_assoc,
      List.append_assoc] at heq
    exact hc (List.cons.inj (List.append_cancel_left heq)).1
  cases as with
  | nil =>
      cases bs with
      | nil => exact ⟨rfl, List.append_cancel_left huv⟩
      | cons b bs => exact (hempty b bs u v huv).elim
  | cons a as =>
      cases bs with
      | nil => exact (hempty a as v u huv.symm).elim
      | cons b bs =>
        obtain ⟨ha, has⟩ := List.forall_mem_cons.1 h
        simp only [toList_enclose_cons, toList_newLine depth, List.append_assoc,
          List.append_cancel_left_eq, List.cons_append] at huv
        obtain ⟨hab, hfollowing⟩ := ha b _ _ (isEnd_following _ _ _) (isEnd_following _ _ _) huv
        obtain ⟨hmap, huv⟩ := following_append_inj has hfollowing
        rw [List.append_cancel_left_eq, List.append_cancel_left_eq] at huv
        exact ⟨by rw [List.map_cons, List.map_cons, hab, hmap], huv⟩

/-! ### Every tree -/

/-- The text of a tree begins with its mark, or with a character of a word. -/
theorem exists_head (j : JsonValue) (depth : Nat) :
    ∃ c rest, (toText depth j).toList = c :: rest ∧
      j.mark = if isNumeral c then none else some c := by
  have henclose : ∀ (first last : String) (c : Char) (parts : List String), first.toList = [c] →
      ∃ rest, (enclose first last depth parts).toList = c :: rest := by
    intro first last c parts hfirst
    rw [enclose]
    split
    · exact ⟨last.toList, by rw [String.toList_append, hfirst]; rfl⟩
    · simp only [String.toList_append, hfirst, List.append_assoc, List.singleton_append]
      exact ⟨_, rfl⟩
  cases hmark : j.mark with
  | none =>
      have hword := isWordOf_toText hmark depth
      obtain ⟨c, rest, hcons⟩ := List.exists_cons_of_ne_nil hword.ne_nil
      exact ⟨c, rest, hcons, by rw [if_pos (hword.forall_isNumeral c (hcons ▸ List.mem_cons_self))]⟩
  | some c =>
      cases j with
      | string s =>
          obtain rfl := Option.some.inj hmark
          exact ⟨'"', _, toList_quote s, rfl⟩
      | array items =>
          obtain rfl := Option.some.inj hmark
          obtain ⟨rest, hrest⟩ := henclose "[" "]" '[' (itemTexts (depth + 1) items) rfl
          exact ⟨'[', rest, hrest, rfl⟩
      | object members =>
          obtain rfl := Option.some.inj hmark
          obtain ⟨rest, hrest⟩ :=
            henclose "\x7b" "\x7d" '\x7b' (memberTexts (depth + 1) members) rfl
          exact ⟨'\x7b', rest, hrest, rfl⟩
      | _ => cases hmark

theorem mark_eq_of_append_eq {j k : JsonValue} {depth : Nat}
    (h : (toText depth j).toList ++ u = (toText depth k).toList ++ v) : j.mark = k.mark := by
  obtain ⟨c, cs, hc, hj⟩ := exists_head j depth
  obtain ⟨d, ds, hd, hk⟩ := exists_head k depth
  rw [hc, hd] at h
  obtain rfl := (List.cons.inj h).1
  rw [hj, hk]

theorem word_append_inj {j k : JsonValue} {depth : Nat} (hj : j.mark = none) (hu : IsEnd u)
    (hv : IsEnd v) (h : (toText depth j).toList ++ u = (toText depth k).toList ++ v) :
    j.printed = k.printed ∧ u = v := by
  have hk : k.mark = none := (mark_eq_of_append_eq h).symm.trans hj
  have hjword := isWordOf_toText hj depth
  have hkword := isWordOf_toText hk depth
  obtain ⟨hword, huv⟩ :=
    numeral_append_inj hjword.forall_isNumeral hkword.forall_isNumeral hu hv h
  exact ⟨by rw [← hjword.ofWord_eq, hword, hkword.ofWord_eq], huv⟩

theorem memberText_readsUniquely {member : String × JsonValue} {depth : Nat}
    (h : ReadsUniquely (toText depth) printed member.2) :
    ReadsUniquely (memberText depth) (Prod.map id printed) member := by
  intro other u v hu hv huv
  simp only [memberText, String.toList_append, List.append_assoc] at huv
  obtain ⟨hname, hvalue⟩ := quote_append_inj huv
  obtain ⟨hprinted, huv⟩ := h other.2 u v hu hv (List.append_cancel_left hvalue)
  exact ⟨Prod.ext hname hprinted, huv⟩

/-- The text of a tree tells the tree as it is printed, and where the text ends. -/
theorem toText_readsUniquely (j : JsonValue) (depth : Nat) :
    ReadsUniquely (toText depth) printed j := by
  -- The other tree is of the same kind, for its text begins with the same character.
  induction j using induct generalizing depth with
  | null => exact fun k u v => word_append_inj rfl
  | bool b => exact fun k u v => word_append_inj rfl
  | natural n => exact fun k u v => word_append_inj rfl
  | number x => exact fun k u v => word_append_inj rfl
  | string s =>
      intro k u v hu hv huv
      cases k with
      | string t =>
          obtain ⟨hst, hend⟩ := quote_append_inj huv
          exact ⟨congrArg (fun s => printed (.string s)) hst, hend⟩
      | _ => cases mark_eq_of_append_eq huv
  | array items ih =>
      intro k u v hu hv huv
      cases k with
      | array others =>
          simp only [toText, itemTexts_eq_map] at huv
          obtain ⟨hmap, huv⟩ := enclose_append_inj rfl (by decide)
            (fun item hitem => ih item hitem (depth + 1)) huv
          exact ⟨by simp only [printed, printedItems_eq_map, hmap], huv⟩
      | _ => cases mark_eq_of_append_eq huv
  | object members ih =>
      intro k u v hu hv huv
      cases k with
      | object others =>
          simp only [toText, memberTexts_eq_map] at huv
          obtain ⟨hmap, huv⟩ := enclose_append_inj rfl (by decide)
            (fun member hmember => memberText_readsUniquely (ih member hmember (depth + 1))) huv
          exact ⟨by simp only [printed, printedMembers_eq_map, hmap], huv⟩
      | _ => cases mark_eq_of_append_eq huv

theorem toText_printed (j : JsonValue) (depth : Nat) : toText depth j.printed = toText depth j := by
  induction j using induct generalizing depth with
  | number x =>
      rw [printed]
      split
      · rfl
      · next hfinite => rw [toText, toText, numberText, if_neg hfinite]
  | array items ih =>
      have hitems : items.map (toText (depth + 1) ∘ printed) = items.map (toText (depth + 1)) :=
        List.map_congr_left fun item hitem => ih item hitem (depth + 1)
      rw [printed, toText, toText, itemTexts_eq_map, itemTexts_eq_map, printedItems_eq_map,
        List.map_map, hitems]
  | object members ih =>
      have hmembers : members.map (memberText (depth + 1) ∘ Prod.map id printed) =
          members.map (memberText (depth + 1)) := by
        refine List.map_congr_left fun member hmember => ?_
        rw [Function.comp_apply, memberText, memberText, Prod.map_fst, Prod.map_snd,
          ih member hmember, id]
      rw [printed, toText, toText, memberTexts_eq_map, memberTexts_eq_map, printedMembers_eq_map,
        List.map_map, hmembers]
  | _ => rfl

/-- Two trees have one text just if they differ in nothing but in which of their numbers that are
not finite stand where. -/
theorem toText_eq_toText_iff {j k : JsonValue} {depth : Nat} :
    toText depth j = toText depth k ↔ j.printed = k.printed := by
  constructor
  · intro h
    have hlists : (toText depth j).toList ++ [] = (toText depth k).toList ++ [] := by rw [h]
    exact (toText_readsUniquely j depth k [] [] startsOutside_nil startsOutside_nil hlists).1
  · intro h
    rw [← toText_printed, h, toText_printed]

end JsonValue

end FlightScript
