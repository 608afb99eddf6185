import FlightScript.Proofs.Validation.Declaration

/-!
# Nested blocks

The commands of the control flow are well nested when every block that is opened is closed
by a command of its kind, and every `else` stands directly in an if block; `Nested` is a
grammar of such sequences. Validation warns of blocks just if the control flow of the
statements is not well nested. The proof goes along the statements with the commands that
complete the blocks that are open (`Completes`), since what follows some statements of a
nested sequence is not nested by itself.

Where the control flow is not nested, every block that is opened is still either closed by
one statement or reported as never closed (`Scope.countP_opens`).
-/

namespace FlightScript

namespace Block

def opener (condition : String) : Block → Command
  | .ifThen => .ifThen condition
  | .whileDo => .whileDo condition

def closer : Block → Command
  | .ifThen => .endIf
  | .whileDo => .endWhile

/-- The block may be divided by `else`. -/
def isIf : Block → Bool
  | .ifThen => true
  | .whileDo => false

/-- What a command gives rise to that should close a block of a kind and closes none. -/
def stray : Block → Finding
  | .ifThen => .strayEndIf
  | .whileDo => .strayEndWhile

theorem closer_injective : Function.Injective closer := by
  rintro (_ | _) (_ | _) h <;> first | rfl | cases h

theorem code_stray (b : Block) : b.stray.code = "SW003" := by
  cases b <;> rfl

theorem otherwise_ne_closer (b : Block) : Command.otherwise ≠ b.closer := by
  cases b <;> simp [closer]

end Block

/-- The well nested sequences of commands of the control flow: those that may stand directly
in an if block, and those that may stand elsewhere. -/
inductive Nested : (inIf : Bool) → List Command → Prop where
  | nil {inIf : Bool} : Nested inIf []
  | otherwise {rest : List Command} (hrest : Nested true rest) :
      Nested true (.otherwise :: rest)
  | ifThen {inIf : Bool} {condition : String} {inner rest : List Command}
      (hinner : Nested true inner) (hrest : Nested inIf rest) :
      Nested inIf (.ifThen condition :: inner ++ .endIf :: rest)
  | whileDo {inIf : Bool} {condition : String} {inner rest : List Command}
      (hinner : Nested false inner) (hrest : Nested inIf rest) :
      Nested inIf (.whileDo condition :: inner ++ .endWhile :: rest)

def controlFlow (statements : List Statement) : List Command :=
  (statements.map Statement.command).filter Command.isControlFlow

theorem controlFlow_cons_of_pos {s : Statement} {rest : List Statement}
    (h : s.command.isControlFlow) : controlFlow (s :: rest) = s.command :: controlFlow rest :=
  List.filter_cons_of_pos h

theorem controlFlow_cons_of_neg {s : Statement} {rest : List Statement}
    (h : ¬ s.command.isControlFlow) : controlFlow (s :: rest) = controlFlow rest :=
  List.filter_cons_of_neg h

/-- The commands close the open blocks of the given kinds, the innermost one first, and are
well nested apart from that. -/
def Completes : List Block → List Command → Prop
  | [], l => Nested false l
  | b :: blocks, l =>
    ∃ inner rest, l = inner ++ b.closer :: rest ∧ Nested b.isIf inner ∧ Completes blocks rest

namespace Statement

variable {s : Statement} {b : Block}

theorem closes?_eq_some_iff : s.closes? = some b ↔ s.command = b.closer := by
  rw [closes?]
  cases b <;> cases s.command <;> simp [Block.closer]

theorem opens?_eq_some_iff : s.opens? = some b ↔ ∃ condition, s.command = b.opener condition := by
  rw [opens?]
  cases b <;> cases s.command <;> simp [Block.opener]

theorem isControlFlow_of_opens (h : s.opens? = some b) : s.command.isControlFlow := by
  obtain ⟨condition, hc⟩ := opens?_eq_some_iff.1 h
  rw [hc]
  cases b <;> rfl

theorem isControlFlow_of_closes (h : s.closes? = some b) : s.command.isControlFlow := by
  rw [closes?_eq_some_iff.1 h]
  cases b <;> rfl

theorem closes?_of_opens (h : s.opens? = some b) : s.closes? = none := by
  obtain ⟨condition, hc⟩ := opens?_eq_some_iff.1 h
  rw [closes?, hc]
  cases b <;> rfl

theorem opens?_of_closes (h : s.closes? = some b) : s.opens? = none := by
  rw [opens?, closes?_eq_some_iff.1 h]
  cases b <;> rfl

/-- A command of the control flow that neither opens nor closes a block divides one. -/
theorem command_eq_otherwise (hc : s.command.isControlFlow) (hopens : s.opens? = none)
    (hcloses : s.closes? = none) : s.command = .otherwise := by
  rw [opens?] at hopens
  rw [closes?] at hcloses
  cases h : s.command <;> simp_all [Command.isControlFlow]

theorem doubts_of_closes (h : s.closes? = some b) (earlier : List Statement) :
    s.doubts earlier = if b.IsInnermost earlier then [] else [b.stray] := by
  rw [doubts, closes?_eq_some_iff.1 h]
  cases b <;> rfl

end Statement

theorem ne_closer_of_opens {s : Statement} {b b' : Block} (h : s.opens? = some b) :
    s.command ≠ b'.closer := by
  intro hc
  have hcloses := Statement.closes?_of_opens h
  rw [Statement.closes?_eq_some_iff.2 hc] at hcloses
  cases hcloses

namespace Nested

variable {inIf : Bool} {l : List Command} {s : Statement} {b : Block}

theorem cons_iff_of_opens (h : s.opens? = some b) :
    Nested inIf (s.command :: l) ↔
      ∃ inner rest, l = inner ++ b.closer :: rest ∧ Nested b.isIf inner ∧ Nested inIf rest := by
  obtain ⟨condition, hc⟩ := Statement.opens?_eq_some_iff.1 h
  rw [hc]
  cases b with
  | ifThen =>
      constructor
      · rintro (_ | _ | ⟨hinner, hrest⟩)
        exact ⟨_, _, rfl, hinner, hrest⟩
      · rintro ⟨inner, rest, rfl, hinner, hrest⟩
        exact .ifThen hinner hrest
  | whileDo =>
      constructor
      · rintro (_ | _ | _ | ⟨hinner, hrest⟩)
        exact ⟨_, _, rfl, hinner, hrest⟩
      · rintro ⟨inner, rest, rfl, hinner, hrest⟩
        exact .whileDo hinner hrest

theorem not_closer_cons : ¬ Nested inIf (b.closer :: l) := by
  intro h
  cases b <;> cases h

theorem otherwise_cons_iff : Nested inIf (.otherwise :: l) ↔ inIf = true ∧ Nested true l := by
  constructor
  · rintro (_ | hrest)
    exact ⟨rfl, hrest⟩
  · rintro ⟨rfl, hrest⟩
    exact .otherwise hrest

end Nested

namespace Completes

variable {blocks : List Block} {l : List Command} {s : Statement} {b : Block} {c : Command}

theorem nil_iff : Completes blocks [] ↔ blocks = [] := by
  cases blocks with
  | nil => exact iff_of_true .nil rfl
  | cons b blocks => simp [Completes]

/-- A command that does not close the innermost block stands in it. -/
theorem cons_iff_of_ne (h : c ≠ b.closer) :
    Completes (b :: blocks) (c :: l) ↔
      ∃ inner rest, l = inner ++ b.closer :: rest ∧ Nested b.isIf (c :: inner) ∧
        Completes blocks rest := by
  constructor
  · rintro ⟨inner, rest, hl, hinner, hrest⟩
    cases inner with
    | nil => exact absurd (List.cons.inj hl).1 h
    | cons c' inner =>
        obtain ⟨rfl, rfl⟩ := List.cons.inj hl
        exact ⟨inner, rest, rfl, hinner, hrest⟩
  · rintro ⟨inner, rest, rfl, hinner, hrest⟩
    exact ⟨c :: inner, rest, rfl, hinner, hrest⟩

theorem cons_iff_of_opens (h : s.opens? = some b) :
    Completes blocks (s.command :: l) ↔ Completes (b :: blocks) l := by
  cases blocks with
  | nil => exact Nested.cons_iff_of_opens h
  | cons outer blocks =>
      rw [cons_iff_of_ne (ne_closer_of_opens h)]
      constructor
      · rintro ⟨inner, rest, rfl, hinner, hrest⟩
        obtain ⟨first, others, rfl, hfirst, hothers⟩ := (Nested.cons_iff_of_opens h).1 hinner
        exact ⟨first, others ++ outer.closer :: rest, by simp, hfirst, others, rest, rfl, hothers,
          hrest⟩
      · rintro ⟨first, _, rfl, hfirst, others, rest, rfl, hothers, hrest⟩
        exact ⟨first ++ b.closer :: others, rest, by simp,
          (Nested.cons_iff_of_opens h).2 ⟨first, others, rfl, hfirst, hothers⟩, hrest⟩

theorem closer_cons_iff :
    Completes blocks (b.closer :: l) ↔ blocks.head? = some b ∧ Completes blocks.tail l := by
  cases blocks with
  | nil => exact iff_of_false Nested.not_closer_cons (fun h => nomatch h.1)
  | cons outer blocks =>
      by_cases houter : outer = b
      · subst houter
        constructor
        · rintro ⟨inner, rest, hl, hinner, hrest⟩
          cases inner with
          | nil =>
              obtain ⟨-, rfl⟩ := List.cons.inj hl
              exact ⟨rfl, hrest⟩
          | cons c inner =>
              obtain ⟨rfl, -⟩ := List.cons.inj hl
              exact absurd hinner Nested.not_closer_cons
        · rintro ⟨-, hl⟩
          exact ⟨[], l, rfl, .nil, hl⟩
      · rw [cons_iff_of_ne (fun h => houter (Block.closer_injective h).symm)]
        refine iff_of_false ?_ (fun h => houter (Option.some.inj h.1))
        rintro ⟨inner, rest, -, hinner, -⟩
        exact Nested.not_closer_cons hinner

theorem otherwise_cons_iff :
    Completes blocks (.otherwise :: l) ↔ blocks.head? = some .ifThen ∧ Completes blocks l := by
  cases blocks with
  | nil =>
      exact iff_of_false (fun h => nomatch (Nested.otherwise_cons_iff.1 h).1) (fun h => nomatch h.1)
  | cons outer blocks =>
      rw [cons_iff_of_ne outer.otherwise_ne_closer]
      simp only [Nested.otherwise_cons_iff]
      cases outer with
      | ifThen => simp [Completes, Block.isIf]
      | whileDo => simp [Block.isIf]

end Completes

namespace Scope

variable {scope : Scope} {s : Statement} {b : Block}

theorem findings_of_opens (h : s.opens? = some b) : scope.findings s.command = [] := by
  obtain ⟨condition, hc⟩ := Statement.opens?_eq_some_iff.1 h
  rw [hc]
  cases b <;> rfl

theorem findings_of_closes (h : s.closes? = some b) :
    scope.findings s.command = unlessHolds (scope.isInside b) b.stray := by
  rw [Statement.closes?_eq_some_iff.1 h]
  cases b <;> rfl

theorem code_ne_of_mem_findings {c : Command} {f : Finding} (hc : ¬ c.isControlFlow)
    (hf : f ∈ scope.findings c) : f.code ≠ "SW003" := by
  cases c with
  | ifThen | otherwise | endIf | whileDo | endWhile => exact absurd rfl hc
  | propagate propagator spacecraft stop =>
      rw [findings, List.mem_append, mem_unlessHolds, mem_unlessHolds] at hf
      rcases hf with ⟨-, rfl⟩ | ⟨-, rfl⟩ <;> simp [Finding.code]
  | create | set | save =>
      obtain ⟨-, rfl⟩ := mem_unlessHolds.1 hf
      simp [Finding.code]
  | report | «variable» | comment | unknown => exact absurd hf List.not_mem_nil

theorem head?_map_blocks_eq_iff :
    (scope.blocks.map Prod.fst).head? = some b ↔ scope.isInside b := by
  rw [isInside_iff, List.head?_map]

theorem forall_code_ne_unlessHolds_iff {holds : Bool} {f : Finding} (hf : f.code = "SW003") :
    (∀ g ∈ unlessHolds holds f, g.code ≠ "SW003") ↔ holds := by
  cases holds <;> simp [unlessHolds, hf]

/-- A statement is warned of if nothing after it can complete the open blocks; otherwise what
follows has to complete the blocks that are open after it. -/
theorem completes_controlFlow_cons_iff (scope : Scope) (s : Statement) (rest : List Statement) :
    Completes (scope.blocks.map Prod.fst) (controlFlow (s :: rest)) ↔
      (∀ f ∈ scope.findings s.command, f.code ≠ "SW003") ∧
        Completes ((scope.after s).blocks.map Prod.fst) (controlFlow rest) := by
  cases hopens : s.opens? with
  | some b =>
      rw [controlFlow_cons_of_pos (Statement.isControlFlow_of_opens hopens),
        findings_of_opens hopens, blocks_after_of_opens hopens, Completes.cons_iff_of_opens hopens,
        List.map_cons]
      exact (and_iff_right fun _ hf => absurd hf List.not_mem_nil).symm
  | none =>
      cases hcloses : s.closes? with
      | some b =>
          rw [controlFlow_cons_of_pos (Statement.isControlFlow_of_closes hcloses),
            findings_of_closes hcloses, blocks_after_of_closes hcloses,
            Statement.closes?_eq_some_iff.1 hcloses, Completes.closer_cons_iff,
            head?_map_blocks_eq_iff, forall_code_ne_unlessHolds_iff b.code_stray, ← List.map_tail]
          exact and_congr_right fun hinside => by rw [if_pos hinside]
      | none =>
          rw [blocks_after_of_skip hopens (by simp [hcloses])]
          by_cases hc : s.command.isControlFlow
          · rw [controlFlow_cons_of_pos hc, Statement.command_eq_otherwise hc hopens hcloses,
              Completes.otherwise_cons_iff, head?_map_blocks_eq_iff, findings,
              forall_code_ne_unlessHolds_iff rfl]
          · rw [controlFlow_cons_of_neg hc]
            exact (and_iff_right fun _ => code_ne_of_mem_findings hc).symm

/-- Statements give no warning of blocks just if they complete the blocks that are open. -/
theorem forall_code_ne_iff_completes (scope : Scope) (statements : List Statement) :
    (∀ d ∈ scope.diagnostics statements, d.code ≠ "SW003") ↔
      Completes (scope.blocks.map Prod.fst) (controlFlow statements) := by
  induction statements generalizing scope with
  | nil =>
      rw [diagnostics_nil, controlFlow, List.map_nil, List.filter_nil, Completes.nil_iff,
        List.map_eq_nil_iff]
      constructor
      · intro h
        by_contra hblocks
        obtain ⟨d, hd⟩ := List.exists_mem_of_ne_nil scope.closing (by simpa [closing] using hblocks)
        exact h d hd (code_of_mem_closing hd)
      · intro h
        simp [closing, h]
  | cons s rest ih =>
      rw [diagnostics_cons, List.forall_mem_append, ih, List.forall_mem_map,
        completes_controlFlow_cons_iff]
      rfl

end Scope

def Diagnostic.saysUnclosed (d : Diagnostic) : Bool :=
  d.code = "SW003" &&
    (d.message = Finding.unclosedIf.message || d.message = Finding.unclosedWhile.message)

theorem Finding.saysUnclosed_diagnostic_iff {f : Finding} {line : Nat} {text : String} :
    (f.diagnostic line text).saysUnclosed ↔ ∃ b, f = Scope.unclosed b := by
  cases f with
  | unclosedIf => exact iff_of_true rfl ⟨.ifThen, rfl⟩
  | unclosedWhile => exact iff_of_true rfl ⟨.whileDo, rfl⟩
  | strayElse | strayEndIf | strayEndWhile =>
      -- the same code, but another message
      exact iff_of_false (fun h => nomatch h) (by rintro ⟨_ | _, h⟩ <;> cases h)
  | _ =>
      exact iff_of_false (by simp [diagnostic, Diagnostic.saysUnclosed, code])
        (by rintro ⟨_ | _, h⟩ <;> cases h)

theorem Finding.severity_of_code {f : Finding} (h : f.code = "SW003") : f.severity = .warning := by
  cases f <;> first | rfl | simp [code] at h

theorem Statement.unclosed_notMem_doubts {s : Statement} {earlier : List Statement} {b : Block} :
    Scope.unclosed b ∉ s.doubts earlier := by
  rw [doubts]
  cases b <;> cases s.command <;> simp [Scope.unclosed]

theorem Statement.severity_of_mem_faults {s : Statement} {earlier : List Statement} {f : Finding}
    (hf : f ∈ s.faults earlier) : f.severity = .error := by
  rw [← (Scope.findings_afterAll earlier s).1, List.mem_filter] at hf
  exact of_decide_eq_true hf.2

/-- The statement closes the innermost of the blocks that earlier ones leave open. -/
def Statement.closesInnermost (s : Statement) (earlier : List Statement) : Bool :=
  s.closes?.any fun b => b.IsInnermost earlier

/-- The number of the statements that close the innermost block that those before them leave
open. -/
def matchedClosers (statements : List Statement) : Nat :=
  statements.zipIdx.countP fun l => l.1.closesInnermost (statements.take l.2)

theorem matchedClosers_append_singleton (l : List Statement) (s : Statement) :
    matchedClosers (l ++ [s]) = matchedClosers l + (s.closesInnermost l).toNat := by
  have hfront : l.zipIdx.countP (fun p => p.1.closesInnermost ((l ++ [s]).take p.2)) =
      matchedClosers l := by
    refine List.countP_congr fun p hp => ?_
    have hlt : p.2 < l.length := by
      simpa using List.snd_lt_of_mem_zipIdx hp
    rw [List.take_append_of_le_length hlt.le]
  rw [matchedClosers, List.zipIdx_append, List.countP_append, hfront]
  cases h : s.closesInnermost l <;> simp [h]

namespace Scope

theorem length_blocks_after (l : List Statement) (s : Statement) :
    ((empty.afterAll l).after s).blocks.length + (s.closesInnermost l).toNat =
      (empty.afterAll l).blocks.length + s.opens?.isSome.toNat := by
  cases hopens : s.opens? with
  | some b =>
      rw [blocks_after_of_opens hopens, Statement.closesInnermost,
        Statement.closes?_of_opens hopens]
      rfl
  | none =>
      cases hcloses : s.closes? with
      | some b =>
          rw [blocks_after_of_closes hcloses, Statement.closesInnermost, hcloses,
            Option.any_some, ← isInside_afterAll]
          cases hinside : (empty.afterAll l).isInside b with
          | false => rfl
          | true =>
              obtain ⟨_, hhead, -⟩ := Option.map_eq_some_iff.1 (isInside_iff.1 hinside)
              obtain ⟨rest, hblocks⟩ := List.head?_eq_some_iff.1 hhead
              rw [hblocks]
              rfl
      | none =>
          rw [blocks_after_of_skip hopens (by simp [hcloses]), Statement.closesInnermost, hcloses]
          rfl

/-- Each block that is opened is either closed or left open. -/
theorem countP_opens (l : List Statement) :
    l.countP (·.opens?.isSome) = matchedClosers l + (empty.afterAll l).blocks.length := by
  induction l using List.reverseRecOn with
  | nil => rfl
  | append_singleton l s ih =>
      have hs := length_blocks_after l s
      rw [List.countP_append, ih, matchedClosers_append_singleton, afterAll_append, afterAll_cons,
        afterAll_nil, List.countP_singleton]
      cases hopens : s.opens?.isSome <;> simp [hopens] at hs ⊢ <;> omega

end Scope

/-- What holds of the diagnostic of each finding holds of all diagnostics of statements. -/
theorem forall_mem_annotate {found : Statement → List Statement → List Finding}
    {P : Diagnostic → Prop}
    (h : ∀ s earlier, ∀ f ∈ found s earlier, P (f.diagnostic s.line s.text))
    (statements : List Statement) : ∀ d ∈ annotate found statements, P d := by
  intro d hd
  obtain ⟨ds, hds, hd⟩ := List.mem_flatten.1 hd
  obtain ⟨i, hi, rfl⟩ := List.mem_mapIdx.1 hds
  obtain ⟨f, hf, rfl⟩ := List.mem_map.1 hd
  exact h _ _ f hf

namespace Validation

theorem countP_saysUnclosed (statements : List Statement) :
    (ofStatements statements).warnings.countP Diagnostic.saysUnclosed =
      (Scope.empty.afterAll statements).blocks.length := by
  have hdoubts : (annotate Statement.doubts statements).countP Diagnostic.saysUnclosed = 0 := by
    refine List.countP_eq_zero.2 (forall_mem_annotate (fun s earlier f hf => ?_) statements)
    rw [Finding.saysUnclosed_diagnostic_iff]
    rintro ⟨b, rfl⟩
    exact Statement.unclosed_notMem_doubts hf
  have hclosing : (Scope.empty.afterAll statements).closing.countP Diagnostic.saysUnclosed =
      (Scope.empty.afterAll statements).closing.length := by
    refine List.countP_eq_length.2 fun d hd => ?_
    obtain ⟨b, -, rfl⟩ := List.mem_map.1 hd
    exact Finding.saysUnclosed_diagnostic_iff.2 ⟨b.1, rfl⟩
  rw [warnings_ofStatements, List.countP_append, hdoubts, hclosing, Scope.closing, List.length_map,
    List.length_reverse, Nat.zero_add]

theorem code_ne_of_mem_errors {statements : List Statement} :
    ∀ d ∈ (ofStatements statements).errors, d.code ≠ "SW003" := by
  rw [errors_ofStatements]
  refine forall_mem_annotate (fun s earlier f hf hcode => ?_) statements
  have hwarning := Finding.severity_of_code hcode
  rw [Statement.severity_of_mem_faults hf] at hwarning
  cases hwarning

theorem forall_mem_warnings_code_ne_iff {statements : List Statement} :
    (∀ d ∈ (ofStatements statements).warnings, d.code ≠ "SW003") ↔
      ∀ d ∈ Scope.empty.diagnostics statements, d.code ≠ "SW003" := by
  constructor
  · intro h d hd
    cases hseverity : d.severity with
    | error =>
        exact code_ne_of_mem_errors d (List.mem_filter.2 ⟨hd, decide_eq_true hseverity⟩)
    | warning => exact h d (List.mem_filter.2 ⟨hd, decide_eq_true hseverity⟩)
  · intro h d hd
    exact h d (List.mem_filter.1 hd).1

/-- Warnings of blocks can be left out without changing whether statements are valid. -/
theorem errors_filter_code_ne (statements : List Statement) :
    (ofDiagnostics ((Scope.empty.diagnostics statements).filter (·.code ≠ "SW003"))).errors =
      (ofStatements statements).errors := by
  have hkept : (ofStatements statements).errors.filter (·.code ≠ "SW003") =
      (ofStatements statements).errors :=
    List.filter_eq_self.2 fun d hd => decide_eq_true (code_ne_of_mem_errors d hd)
  rw [← hkept]
  simp only [ofStatements, ofDiagnostics, List.filter_filter, Bool.and_comm]

end Validation

namespace Block

/-- A statement that should close a block closes the innermost one if that is of its kind, and
otherwise is warned of and changes nothing. -/
theorem LeavesOpen.of_closes {l : List Statement} {blocks : List (Block × Statement)}
    {s : Statement} {b : Block} (hl : LeavesOpen l blocks) (hs : s.closes? = some b) :
    (∃ outer opener, blocks = outer ++ [(b, opener)] ∧ s.doubts l = [] ∧
        LeavesOpen (l ++ [s]) outer) ∨
      (∀ outer opener, blocks ≠ outer ++ [(b, opener)]) ∧ s.doubts l = [b.stray] ∧
        LeavesOpen (l ++ [s]) blocks := by
  rw [Statement.doubts_of_closes hs]
  by_cases hb : b.IsInnermost l
  · left
    obtain ⟨outer, opener, h⟩ := hb
    obtain ⟨front, inner, rfl, hopens, hfront, hinner⟩ := h.exists_inner
    refine ⟨outer, opener, ?_, if_pos ⟨outer, opener, h⟩, ?_⟩
    · rw [Scope.leavesOpen_iff.1 hl, Scope.leavesOpen_iff.1 h]
    · rw [List.append_assoc]
      exact hfront.append (.block hopens hinner hs .nil)
  · right
    have hlast : ∀ outer opener, blocks ≠ outer ++ [(b, opener)] := by
      rintro outer opener rfl
      exact hb ⟨outer, opener, hl⟩
    refine ⟨hlast, if_neg hb, hl.append (.skip (Statement.opens?_of_closes hs) ?_ .nil)⟩
    rintro b' hb' hkind
    obtain rfl := Option.some.inj (hs.symm.trans hb')
    obtain ⟨⟨_, opener⟩, hopener, rfl⟩ := Option.map_eq_some_iff.1 hkind
    obtain ⟨outer, houter⟩ := List.getLast?_eq_some_iff.1 hopener
    exact hlast outer opener houter

end Block

/-- Validation warns of no block just if the commands of the control flow are well nested. In any
case each block that is opened is closed by one statement or reported as never closed; a statement
that should close a block closes the innermost one if that is of its kind, and otherwise is warned
of once and leaves the open blocks as they are; and none of these warnings bears on whether the
statements are valid. -/
theorem Validation.blocks_pair_up (statements : List Statement) :
    let v := ofStatements statements
    ((∀ d ∈ v.warnings, d.code ≠ "SW003") ↔ Nested false (controlFlow statements)) ∧
    statements.countP (·.opens?.isSome) =
      matchedClosers statements + v.warnings.countP Diagnostic.saysUnclosed ∧
    (∃ blocks, (∀ bs, Block.LeavesOpen statements bs ↔ bs = blocks) ∧
      v.warnings = annotate Statement.doubts statements ++
        blocks.map fun b => (Scope.unclosed b.1).diagnostic b.2.line b.2.text) ∧
    (∀ before s rest b, statements = before ++ s :: rest → s.closes? = some b →
      ∃ blocks, (∀ bs, Block.LeavesOpen before bs ↔ bs = blocks) ∧
        ((∃ outer opener, blocks = outer ++ [(b, opener)] ∧ s.doubts before = [] ∧
            Block.LeavesOpen (before ++ [s]) outer) ∨
          (∀ outer opener, blocks ≠ outer ++ [(b, opener)]) ∧ s.doubts before = [b.stray] ∧
            Block.LeavesOpen (before ++ [s]) blocks)) ∧
    (∀ d ∈ v.errors, d.code ≠ "SW003") ∧
    (ofDiagnostics ((Scope.empty.diagnostics statements).filter (·.code ≠ "SW003"))).isValid =
      v.isValid := by
  refine ⟨?_, ?_, ?_, ?_, code_ne_of_mem_errors, ?_⟩
  · rw [forall_mem_warnings_code_ne_iff]
    exact Scope.forall_code_ne_iff_completes Scope.empty statements
  · rw [countP_saysUnclosed, Scope.countP_opens]
  · exact ⟨_, fun _ => Scope.leavesOpen_iff, warnings_ofStatements statements⟩
  · intro before s rest b _ hs
    exact ⟨_, fun _ => Scope.leavesOpen_iff, (Scope.leavesOpen_afterAll before).of_closes hs⟩
  · rw [isValid, isValid, errors_filter_code_ne]

example :
    (validate "If x\nWhile y\nEndIf\nEndWhile").warnings.map Diagnostic.message =
      ["EndIf without a matching If", "If block is never closed with EndIf"] := by
  decide +kernel

end FlightScript
