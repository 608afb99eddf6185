import FlightScript.Proofs.Library.Catalogue
import FlightScript.Proofs.Text.Bytes

/-!
# What a listing shows

A user is given the scripts that are open to that user, sorted by name. All the lists that may be
given (`Library.Lists`) show every script that is open to the user once, and no other one. So they
differ in the order of scripts of one name only, also for two libraries in which the same scripts
are open to the user (`AgreesFor.sameButForTies`), and what is done with other scripts does not
show (`agreesFor_after`).
-/

open scoped List

namespace FlightScript

/-- A user may see the script: it is public, or it is the user's own. -/
def SavedScript.IsOpenTo (s : SavedScript) (user : String) : Prop :=
  s.isPublic = true ∨ s.owner = user

instance (s : SavedScript) (user : String) : Decidable (s.IsOpenTo user) :=
  inferInstanceAs (Decidable (_ ∨ _))

/-- Two lists differ at most in the order of scripts of one name. -/
structure SameButForTies (scripts scripts' : List SavedScript) : Prop where
  names_eq : scripts.map SavedScript.name = scripts'.map SavedScript.name
  perm : ∀ name, (scripts.filter fun s => s.name = name) ~ scripts'.filter fun s => s.name = name

namespace Library

/-- The same scripts of two libraries are open to a user. -/
def AgreesFor (l m : Library) (user : String) : Prop :=
  ∀ id s, s.IsOpenTo user → (l.get? id = some s ↔ m.get? id = some s)

/-- The request changes at most a script that is not open to a user, neither before nor
afterwards. -/
def Conceals (l : Library) (user : String) (request : Request) : Prop :=
  ∀ id ∈ request.target?, (∀ s ∈ l.get? id, ¬ s.IsOpenTo user) ∧
    ∀ s ∈ (l.serve request).1.get? id, ¬ s.IsOpenTo user

instance (l : Library) (user : String) (request : Request) :
    Decidable (l.Conceals user request) :=
  inferInstanceAs (Decidable (∀ id ∈ request.target?, _))

/-- Each of some requests, one after the other, changes at most a script that is not open to a
user. -/
def AllConceal (l : Library) (user : String) : List Request → Prop
  | [] => True
  | request :: rest => l.Conceals user request ∧ (l.serve request).1.AllConceal user rest

instance AllConceal.decide (l : Library) (user : String) :
    (requests : List Request) → Decidable (l.AllConceal user requests)
  | [] => inferInstanceAs (Decidable True)
  | request :: rest =>
    have := AllConceal.decide (l.serve request).1 user rest
    inferInstanceAs (Decidable (_ ∧ _))

variable {l m : Library} {user : String} {scripts scripts' : List SavedScript}

/-! ### Identifiers -/

theorem Keyed.serve (h : l.Keyed) (request : Request) : (l.serve request).1.Keyed := by
  cases request with
  | add s =>
      rw [Library.serve]
      cases hadd : l.add s with
      | ok m => exact ((add_eq_ok_iff l m s).1 hadd).2 ▸ h.put s
      | error e => exact h
  | update s now =>
      rw [Library.serve]
      cases hupdate : l.update s now with
      | ok m => exact ((update_eq_ok_iff l m s now).1 hupdate).2 ▸ h.put _
      | error e => exact h
  | delete id =>
      rw [Library.serve]
      cases hdelete : l.delete id with
      | ok m => exact h.delete hdelete
      | error e => exact h
  | get id => exact h
  | list user => exact h

theorem Keyed.after (h : l.Keyed) (requests : List Request) : (l.after requests).Keyed := by
  induction requests generalizing l with
  | nil => exact h
  | cons request rest ih => exact ih (h.serve request)

theorem Keyed.mem_stored_iff (h : l.Keyed) {s : SavedScript} :
    s ∈ l.stored ↔ l.get? s.id = some s := by
  have hentry := l.scripts.get?_eq_some_iff
  constructor
  · intro hs
    obtain ⟨⟨id, t⟩, he, rfl⟩ := List.mem_map.1 hs
    have hid : t.id = id := h id t ((hentry id t).2 he)
    exact hid ▸ (hentry id t).2 he
  · intro hs
    exact List.mem_map.2 ⟨_, (hentry _ _).1 hs, rfl⟩

theorem Keyed.nodup_stored (h : l.Keyed) : l.stored.Nodup := by
  refine List.Nodup.of_map SavedScript.id ?_
  have hids : l.stored.map SavedScript.id = l.scripts.entries.map Prod.fst := by
    rw [stored, List.map_map]
    refine List.map_congr_left fun e he => ?_
    exact h e.1 e.2 ((l.scripts.get?_eq_some_iff e.1 e.2).2 he)
  rw [hids]
  exact l.scripts.nodup

/-! ### Listings -/

theorem Lists.nodup (h : l.Lists user scripts) (hl : l.Keyed) : scripts.Nodup :=
  h.perm.nodup_iff.2 (hl.nodup_stored.filter _)

theorem Lists.mem_iff (h : l.Lists user scripts) (hl : l.Keyed) {s : SavedScript} :
    s ∈ scripts ↔ l.get? s.id = some s ∧ s.IsOpenTo user := by
  rw [h.perm.mem_iff, List.mem_filter, hl.mem_stored_iff, SavedScript.isVisibleTo_iff]
  rfl

theorem AgreesFor.sameButForTies (h : l.AgreesFor m user) (hl : l.Keyed) (hm : m.Keyed)
    (hscripts : l.Lists user scripts) (hscripts' : m.Lists user scripts') :
    SameButForTies scripts scripts' := by
  have hperm : scripts ~ scripts' := by
    rw [List.perm_ext_iff_of_nodup (hscripts.nodup hl) (hscripts'.nodup hm)]
    intro s
    rw [hscripts.mem_iff hl, hscripts'.mem_iff hm]
    exact and_congr_left fun hopen => h s.id s hopen
  refine ⟨?_, fun name => hperm.filter _⟩
  have hnames := hscripts.pairwise
  have hnames' := hscripts'.pairwise
  rw [← List.pairwise_map (f := SavedScript.name) (R := (· ≤ ·))] at hnames hnames'
  exact (hperm.map SavedScript.name).eq_of_pairwise (fun _ _ _ _ => le_antisymm) hnames hnames'

/-! ### What does not show -/

theorem AgreesFor.refl (l : Library) (user : String) : l.AgreesFor l user :=
  fun _ _ _ => Iff.rfl

theorem AgreesFor.trans {n : Library} (h : l.AgreesFor m user) (h' : m.AgreesFor n user) :
    l.AgreesFor n user :=
  fun id s hopen => (h id s hopen).trans (h' id s hopen)

/-- A request that changes at most a script that is not open leaves the open ones as they were. -/
theorem Conceals.agreesFor {request : Request} (h : l.Conceals user request) :
    l.AgreesFor (l.serve request).1 user := by
  intro id s hopen
  by_cases hid : request.target? = some id
  · exact iff_of_false (fun hs => (h id hid).1 s hs hopen) fun hs => (h id hid).2 s hs hopen
  · rw [get?_serve_of_ne hid]

theorem agreesFor_after {hidden : List Request} (h : l.AllConceal user hidden) :
    l.AgreesFor (l.after hidden) user := by
  induction hidden generalizing l with
  | nil => exact AgreesFor.refl l user
  | cons request rest ih => exact h.1.agreesFor.trans (ih h.2)

/-- A user is given every script once that is public or the user's own, as it is stored, and no
other one, in the order of the bytes of the names. The lists of two libraries in which the same
scripts are open to the user differ at most in the order of scripts of one name; so do those
before and after requests which each change at most a script that the user may see neither before
nor afterwards. -/
theorem lists_open_scripts (requests : List Request) (user : String) :
    let l := empty.after requests
    l.Lists user (l.visibleTo user) ∧
    ∀ scripts, l.Lists user scripts →
      (∀ id s, l.get? id = some s → s.IsOpenTo user → scripts.count s = 1) ∧
      (∀ s ∈ scripts, l.get? s.id = some s ∧ s.IsOpenTo user) ∧
      (scripts.Pairwise fun s t => Text.bytes s.name ≤ Text.bytes t.name) ∧
      (∀ requests' scripts', l.AgreesFor (empty.after requests') user →
        (empty.after requests').Lists user scripts' → SameButForTies scripts scripts') ∧
      ∀ hidden scripts', l.AllConceal user hidden → (l.after hidden).Lists user scripts' →
        SameButForTies scripts scripts' := by
  intro l
  have hl : l.Keyed := keyed_empty.after requests
  refine ⟨l.lists_visibleTo user, fun scripts hscripts => ⟨?_, ?_, ?_, ?_, ?_⟩⟩
  · intro id s hs hopen
    obtain rfl := hl id s hs
    exact List.count_eq_one_of_mem (hscripts.nodup hl) ((hscripts.mem_iff hl).2 ⟨hs, hopen⟩)
  · exact fun s hs => (hscripts.mem_iff hl).1 hs
  · exact hscripts.pairwise.imp Text.bytes_le_iff.2
  · exact fun requests' scripts' hagrees hscripts' =>
      hagrees.sameButForTies hl (keyed_empty.after requests') hscripts hscripts'
  · exact fun hidden scripts' hconceal hscripts' =>
      (agreesFor_after hconceal).sameButForTies hl (hl.after hidden) hscripts hscripts'

/-- Ann has a private script and Bob a public one of the same name. Ann's list shows both of them,
and it stays as it is while Bob adds a private script, renames it and deletes it. -/
theorem lists_open_scripts_of_one_name :
    let own : SavedScript := ⟨"a", "Transfer", "n = 1", "", "ann", false, [], 0, 0⟩
    let shared : SavedScript := ⟨"b", "Transfer", "n = 2", "", "bob", true, [], 0, 0⟩
    let hidden : SavedScript := ⟨"c", "Secret", "n = 3", "", "bob", false, [], 0, 0⟩
    let l := empty.after [.add shared, .add own]
    let changes : List Request := [.add hidden, .update { hidden with name := "A" } 1, .delete "c"]
    l.AllConceal "ann" changes ∧ l.visibleTo "ann" ~ [own, shared] ∧
      (l.visibleTo "ann").count shared = 1 ∧
      SameButForTies (l.visibleTo "ann") ((l.after [.add hidden]).visibleTo "ann") ∧
      SameButForTies (l.visibleTo "ann") ((l.after changes).visibleTo "ann") := by
  intro own shared hidden l changes
  have hconceal : l.AllConceal "ann" changes := by decide +kernel
  have hadd : l.AllConceal "ann" [.add hidden] := ⟨hconceal.1, trivial⟩
  obtain ⟨hlists, h⟩ := lists_open_scripts [.add shared, .add own] "ann"
  obtain ⟨hcount, -, -, hagrees, hafter⟩ := h _ hlists
  have hstored : (l.stored.filter fun s => s.isVisibleTo "ann") ~ [own, shared] := by
    decide +kernel
  exact ⟨hconceal, hlists.perm.trans hstored,
    hcount "b" shared (by decide +kernel) (by decide +kernel),
    hagrees [.add shared, .add own, .add hidden] _ (agreesFor_after hadd) (lists_visibleTo _ _),
    hafter changes _ hconceal (lists_visibleTo _ _)⟩

end Library

end FlightScript
