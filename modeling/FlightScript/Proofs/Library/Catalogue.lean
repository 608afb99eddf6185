import FlightScript.Library
import Mathlib.Data.Finmap
import Mathlib.Data.String.Basic

/-!
# Libraries as finite maps

What can be asked of a library is a `Library.Request`, and `Library.serve` answers it. A
`Catalogue` is a finite map from identifiers to scripts, without any order or layout; it
says what each request makes of it (`Catalogue.next`) and what may be answered
(`Catalogue.Answers`). A library and the catalogue that it stands for stay in step
along every sequence of requests (`isServedBy_of_mayAnswerAll`).

A listing is sorted by name. Scripts of one name stand in it as the library happens to go over
them: `l.Lists user scripts` holds of the lists that some order of the scripts gives, and
`l.MayAnswer` of the answers that it allows.
-/

open scoped List

namespace FlightScript

namespace Library

inductive Request where
  | add (s : SavedScript)
  /-- Replace a script, at a given time. -/
  | update (s : SavedScript) (now : Int)
  | get (id : String)
  | delete (id : String)
  /-- List the scripts that a user may see. -/
  | list (user : String)
  deriving DecidableEq

namespace Request

def target? : Request → Option String
  | .add s => some s.id
  | .update s _ => some s.id
  | .delete id => some id
  | .get _ => none
  | .list _ => none

end Request

inductive Answer where
  | saved (s : SavedScript)
  | found (s : Option SavedScript)
  | deleted
  | listed (scripts : List SavedScript)
  | refused (e : LibraryError)
  deriving DecidableEq

def answering (l : Library) (success : Answer) : Except LibraryError Library → Library × Answer
  | .ok changed => (changed, success)
  | .error e => (l, .refused e)

def serve (l : Library) : Request → Library × Answer
  | .add s => l.answering (.saved s) (l.add s)
  | .update s now => l.answering (.saved { s with updatedAt := now }) (l.update s now)
  | .get id => (l, .found (l.get? id))
  | .delete id => l.answering .deleted (l.delete id)
  | .list user => (l, .listed (l.visibleTo user))

def after (l : Library) (requests : List Request) : Library :=
  requests.foldl (fun l request => (l.serve request).1) l

def answers (l : Library) : List Request → List Answer
  | [] => []
  | request :: rest => (l.serve request).2 :: (l.serve request).1.answers rest

def stored (l : Library) : List SavedScript :=
  l.scripts.entries.map Prod.snd

/-- The user may be given this list: it is got from the scripts in some order. -/
def Lists (l : Library) (user : String) (scripts : List SavedScript) : Prop :=
  ∃ order, order ~ l.stored ∧
    scripts = (order.filter fun s => s.isVisibleTo user).mergeSort fun s t => s.name ≤ t.name

/-- This may be answered to a request, the scripts of a library being gone over in any order. -/
inductive MayAnswer (l : Library) : Request → Answer → Prop where
  | serve (request : Request) : MayAnswer l request (l.serve request).2
  | list {user : String} {scripts : List SavedScript} (h : l.Lists user scripts) :
      MayAnswer l (.list user) (.listed scripts)

inductive MayAnswerAll : Library → List Request → List Answer → Prop where
  | nil {l : Library} : MayAnswerAll l [] []
  | cons {l : Library} {request : Request} {answer : Answer} {requests : List Request}
      {answers : List Answer} (h : l.MayAnswer request answer)
      (hrest : MayAnswerAll (l.serve request).1 requests answers) :
      MayAnswerAll l (request :: requests) (answer :: answers)

theorem after_cons (l : Library) (request : Request) (rest : List Request) :
    l.after (request :: rest) = (l.serve request).1.after rest := rfl

end Library

open Library

/-- A finite map from identifiers to scripts. -/
abbrev Catalogue := Finmap fun _ : String => SavedScript

namespace Catalogue

/-- The list holds each script of the catalogue that a user may see, as often as it stands
in the catalogue, in the order of the names. -/
structure IsListing (m : Catalogue) (user : String) (scripts : List SavedScript) : Prop where
  eq_filter : (scripts : Multiset SavedScript) =
    (m.entries.map Sigma.snd).filter fun s => s.isPublic = true ∨ s.owner = user
  ordered : scripts.Pairwise fun s t => s.name ≤ t.name

def next (m : Catalogue) : Request → Catalogue
  | .add s => if s.id ∈ m then m else m.insert s.id s
  | .update s now => if s.id ∈ m then m.insert s.id { s with updatedAt := now } else m
  | .delete id => if id ∈ m then m.erase id else m
  | .get _ => m
  | .list _ => m

/-- What may be answered to a request. -/
def Answers (m : Catalogue) : Request → Answer → Prop
  | .add s, answer => answer = if s.id ∈ m then .refused (.alreadyExists s.id) else .saved s
  | .update s now, answer =>
    answer = if s.id ∈ m then .saved { s with updatedAt := now } else .refused (.keyNotFound s.id)
  | .delete id, answer => answer = if id ∈ m then .deleted else .refused (.keyNotFound id)
  | .get id, answer => answer = .found (m.lookup id)
  | .list user, answer => ∃ scripts, answer = .listed scripts ∧ m.IsListing user scripts

/-- Requests to a catalogue with their answers, and the catalogue after them. -/
inductive IsServedBy : Catalogue → List Request → List Answer → Catalogue → Prop where
  | nil {m : Catalogue} : IsServedBy m [] [] m
  | cons {m m' : Catalogue} {request : Request} {answer : Answer} {requests : List Request}
      {answers : List Answer} (h : m.Answers request answer)
      (hrest : IsServedBy (m.next request) requests answers m') :
      IsServedBy m (request :: requests) (answer :: answers) m'

end Catalogue

namespace SavedScript

theorem isVisibleTo_iff {s : SavedScript} {user : String} :
    s.isVisibleTo user ↔ s.isPublic = true ∨ s.owner = user := by
  simp [isVisibleTo]

end SavedScript

namespace Library

/-- Every script is put under its own identifier. -/
def Keyed (l : Library) : Prop :=
  ∀ id s, l.get? id = some s → s.id = id

theorem keyed_empty : empty.Keyed := by
  intro id s hs
  cases hs

theorem Keyed.put {l : Library} (h : l.Keyed) (s : SavedScript) : (l.put s).Keyed := by
  intro id t ht
  rw [get?_put] at ht
  split at ht
  · next hid => exact Option.some.inj ht ▸ hid
  · exact h id t ht

theorem Keyed.delete {l m : Library} (h : l.Keyed) {id : String} (hm : l.delete id = .ok m) :
    m.Keyed := by
  intro other t ht
  rw [get?_of_delete hm] at ht
  split at ht
  · cases ht
  · exact h other t ht

variable {l : Library}

theorem nodupKeys_entries (l : Library) : (l.scripts.entries.map Prod.toSigma).NodupKeys := by
  rw [List.NodupKeys, List.keys, List.map_map]
  exact l.scripts.nodup

/-- The finite map that a library stands for. -/
def toCatalogue (l : Library) : Catalogue :=
  AList.toFinmap ⟨l.scripts.entries.map Prod.toSigma, l.nodupKeys_entries⟩

theorem dlookup_map_toSigma (id : String) (entries : List (String × SavedScript)) :
    (entries.map Prod.toSigma).dlookup id = Entries.find? id entries := by
  induction entries with
  | nil => rfl
  | cons e rest ih =>
      obtain ⟨key, s⟩ := e
      rw [List.map_cons, Entries.find?]
      by_cases hid : key = id
      · subst hid
        rw [if_pos rfl]
        exact List.dlookup_cons_eq (rest.map Prod.toSigma) key _
      · rw [if_neg hid, ← ih]
        exact List.dlookup_cons_ne _ (Prod.toSigma (key, s)) fun h => hid h.symm

@[simp] theorem lookup_toCatalogue (l : Library) (id : String) :
    l.toCatalogue.lookup id = l.get? id := by
  rw [toCatalogue, Finmap.lookup_toFinmap]
  exact dlookup_map_toSigma id l.scripts.entries

theorem mem_toCatalogue_iff {id : String} : id ∈ l.toCatalogue ↔ (l.get? id).isSome := by
  rw [← Finmap.lookup_isSome, lookup_toCatalogue]

theorem toCatalogue_put (l : Library) (s : SavedScript) :
    (l.put s).toCatalogue = l.toCatalogue.insert s.id s := by
  apply Finmap.ext_lookup
  intro id
  rw [lookup_toCatalogue, get?_put]
  by_cases hid : s.id = id
  · rw [if_pos hid, ← hid, Finmap.lookup_insert]
  · rw [if_neg hid, Finmap.lookup_insert_of_ne _ fun h => hid h.symm, lookup_toCatalogue]

theorem toCatalogue_delete {m : Library} {id : String} (h : l.delete id = .ok m) :
    m.toCatalogue = l.toCatalogue.erase id := by
  apply Finmap.ext_lookup
  intro other
  rw [lookup_toCatalogue, get?_of_delete h]
  by_cases hid : id = other
  · rw [if_pos hid, ← hid, Finmap.lookup_erase]
  · rw [if_neg hid, Finmap.lookup_erase_ne fun h => hid h.symm, lookup_toCatalogue]

theorem Lists.perm {user : String} {scripts : List SavedScript} (h : l.Lists user scripts) :
    scripts ~ l.stored.filter fun s => s.isVisibleTo user := by
  obtain ⟨order, horder, rfl⟩ := h
  exact (List.mergeSort_perm _ _).trans (horder.filter _)

theorem Lists.pairwise {user : String} {scripts : List SavedScript} (h : l.Lists user scripts) :
    scripts.Pairwise fun s t => s.name ≤ t.name := by
  obtain ⟨order, -, rfl⟩ := h
  have hsorted := @List.pairwise_mergeSort _ (fun s t : SavedScript => decide (s.name ≤ t.name))
    (fun s t u hst htu => by simpa using le_trans (of_decide_eq_true hst) (of_decide_eq_true htu))
    (fun s t => by simpa using le_total s.name t.name)
    (order.filter fun s => s.isVisibleTo user)
  exact hsorted.imp of_decide_eq_true

/-- What is listed is one of the lists that may be given. -/
theorem lists_visibleTo (l : Library) (user : String) : l.Lists user (l.visibleTo user) :=
  ⟨l.stored, .refl _, rfl⟩

theorem Lists.isListing {user : String} {scripts : List SavedScript} (h : l.Lists user scripts) :
    l.toCatalogue.IsListing user scripts where
  eq_filter := by
    have hscripts : l.toCatalogue.entries.map Sigma.snd = (l.stored : Multiset SavedScript) := by
      rw [toCatalogue, AList.toFinmap_entries, Multiset.map_coe, List.map_map]
      rfl
    rw [hscripts, Multiset.filter_coe, Multiset.coe_eq_coe]
    refine h.perm.trans (List.Perm.of_eq (List.filter_congr fun s _ => ?_))
    simp [SavedScript.isVisibleTo]
  ordered := h.pairwise

/-- A request is answered as by the catalogue, which then goes on as the library does. -/
theorem serve_eq (l : Library) (request : Request) :
    l.toCatalogue.Answers request (l.serve request).2 ∧
      (l.serve request).1.toCatalogue = l.toCatalogue.next request := by
  cases request with
  | add s =>
      rw [serve, add, Catalogue.Answers, Catalogue.next]
      cases hs : l.get? s.id with
      | some t => simp [mem_toCatalogue_iff, hs, answering]
      | none => simp [mem_toCatalogue_iff, hs, answering, toCatalogue_put]
  | update s now =>
      rw [serve, update, Catalogue.Answers, Catalogue.next]
      cases hs : l.get? s.id with
      | some t => simp [mem_toCatalogue_iff, hs, answering, toCatalogue_put]
      | none => simp [mem_toCatalogue_iff, hs, answering]
  | get id => exact ⟨congrArg Answer.found (lookup_toCatalogue l id).symm, rfl⟩
  | delete id =>
      rw [serve, Catalogue.Answers, Catalogue.next]
      cases hs : l.get? id with
      | some t =>
          have hdelete : l.delete id = .ok ⟨l.scripts.erase id⟩ := by rw [delete, hs]
          simp [mem_toCatalogue_iff, hs, hdelete, answering, toCatalogue_delete hdelete]
      | none => simp [mem_toCatalogue_iff, hs, delete, answering]
  | list user => exact ⟨⟨_, rfl, (l.lists_visibleTo user).isListing⟩, rfl⟩

theorem MayAnswer.answers {request : Request} {answer : Answer} (h : l.MayAnswer request answer) :
    l.toCatalogue.Answers request answer := by
  cases h with
  | serve request => exact (l.serve_eq request).1
  | list h => exact ⟨_, rfl, h.isListing⟩

theorem isServedBy_of_mayAnswerAll {requests : List Request} {answers : List Answer}
    (h : l.MayAnswerAll requests answers) :
    l.toCatalogue.IsServedBy requests answers (l.after requests).toCatalogue := by
  induction h with
  | nil => exact .nil
  | @cons l request answer requests answers h _ ih =>
      rw [after_cons]
      exact .cons h.answers ((l.serve_eq request).2 ▸ ih)

theorem mayAnswerAll_answers (l : Library) (requests : List Request) :
    l.MayAnswerAll requests (l.answers requests) := by
  induction requests generalizing l with
  | nil => exact .nil
  | cons request rest ih => exact .cons (.serve request) (ih _)

theorem answering_of_refused {success : Answer} {changed : Except LibraryError Library}
    {e : LibraryError} (hsuccess : success ≠ .refused e)
    (h : (l.answering success changed).2 = .refused e) : (l.answering success changed).1 = l := by
  cases changed with
  | ok m => exact absurd h hsuccess
  | error error => rfl

/-- A request that is refused changes nothing. -/
theorem serve_of_refused {request : Request} {e : LibraryError}
    (h : (l.serve request).2 = .refused e) : (l.serve request).1 = l := by
  cases request with
  | add s => exact answering_of_refused nofun h
  | update s now => exact answering_of_refused nofun h
  | delete id => exact answering_of_refused nofun h
  | get id => rfl
  | list user => rfl

end Library

theorem Catalogue.lookup_next_of_ne {m : Catalogue} {request : Request} {id : String}
    (h : request.target? ≠ some id) : (m.next request).lookup id = m.lookup id := by
  cases request with
  | add s =>
      have hne : id ≠ s.id := fun hid => h (congrArg some hid.symm)
      rw [next]
      split
      · rfl
      · exact Finmap.lookup_insert_of_ne m hne
  | update s now =>
      have hne : id ≠ s.id := fun hid => h (congrArg some hid.symm)
      rw [next]
      split
      · exact Finmap.lookup_insert_of_ne m hne
      · rfl
  | delete other =>
      have hne : id ≠ other := fun hid => h (congrArg some hid.symm)
      rw [next]
      split
      · exact Finmap.lookup_erase_ne hne
      · rfl
  | get other => rfl
  | list user => rfl

namespace Library

variable {l : Library}

/-- A request changes the script of no other identifier. -/
theorem get?_serve_of_ne {request : Request} {id : String} (h : request.target? ≠ some id) :
    (l.serve request).1.get? id = l.get? id := by
  rw [← lookup_toCatalogue, (l.serve_eq request).2, Catalogue.lookup_next_of_ne h,
    lookup_toCatalogue]

/-- A deleted script can be added again. -/
theorem serve_add_of_deleted {id : String} (h : (l.serve (.delete id)).2 = .deleted)
    {s : SavedScript} (hs : s.id = id) :
    ((l.serve (.delete id)).1.serve (.add s)).2 = .saved s := by
  obtain ⟨hanswer, hnext⟩ := l.serve_eq (.delete id)
  have hmem : id ∈ l.toCatalogue := by
    by_contra hmem
    rw [h, Catalogue.Answers, if_neg hmem] at hanswer
    cases hanswer
  have hfree : s.id ∉ (l.serve (.delete id)).1.toCatalogue := by
    rw [hnext, Catalogue.next, if_pos hmem, hs]
    exact Finmap.notMem_erase_self
  exact ((l.serve (.delete id)).1.serve_eq (.add s)).1.trans (if_neg hfree)

/-- A library answers every sequence of requests as the finite map does that it stands for, in
whatever order it goes over its scripts. A request that is refused changes nothing, no request
changes the script of another identifier, those that only read change nothing at all, and a
deleted script can be added again. -/
theorem serves_as_catalogue (requests : List Request) :
    let l := empty.after requests
    (empty.MayAnswerAll requests (empty.answers requests) ∧ ∀ answers,
      empty.MayAnswerAll requests answers →
      Catalogue.IsServedBy ∅ requests answers l.toCatalogue) ∧
    (∀ id, l.toCatalogue.lookup id = l.get? id) ∧
    (∀ request e, (l.serve request).2 = .refused e → (l.serve request).1 = l) ∧
    (∀ request id, request.target? ≠ some id → (l.serve request).1.get? id = l.get? id) ∧
    (∀ request, request.target? = none → (l.serve request).1 = l) ∧
    ∀ id s, (l.serve (.delete id)).2 = .deleted → s.id = id →
      ((l.serve (.delete id)).1.serve (.add s)).2 = .saved s := by
  intro l
  refine ⟨⟨empty.mayAnswerAll_answers requests, fun _ => isServedBy_of_mayAnswerAll⟩,
    l.lookup_toCatalogue, fun _ _ => serve_of_refused,
    fun _ _ => get?_serve_of_ne, ?_, fun _ _ h hs => serve_add_of_deleted h hs⟩
  intro request htarget
  cases request with
  | get id => rfl
  | list user => rfl
  | _ => cases htarget

example :
    let script : SavedScript := ⟨"a", "A", "n = 1", "", "ann", false, [], 3, 3⟩
    empty.answers [.update script 4, .add script, .add script, .update script 5, .delete "a",
        .get "a", .delete "a"] =
      [.refused (.keyNotFound "a"), .saved script, .refused (.alreadyExists "a"),
        .saved { script with updatedAt := 5 }, .deleted, .found none,
        .refused (.keyNotFound "a")] := by
  decide +kernel

end Library

end FlightScript
