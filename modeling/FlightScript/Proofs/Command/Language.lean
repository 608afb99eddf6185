import FlightScript.Command.Shape
import FlightScript.Proofs.Command.Word

/-!
# The language of commands

The lines that are commands, described without a reader: a shape is a sequence of
keywords, names, gaps and symbols, and it denotes a command. Nothing here says how a
line is cut into these parts, nor that it can be cut in one way only.
-/

namespace FlightScript

open Words Text

/-- An equals sign between blanks, and a value. -/
inductive Assigns : List Char → Value → Prop where
  | intro {g₁ g₂ v : List Char} (hg₁ : IsGap g₁) (hg₂ : IsGap g₂) (hv : v ≠ []) :
      Assigns (g₁ ++ '=' :: g₂ ++ v) (.read (String.ofList v))

/-- A stop clause in its braces. -/
inductive Stops : List Char → StopClause → Prop where
  | intro {g₁ object property g₂ g₃ v g₄ : List Char} (hg₁ : IsGap g₁)
      (hobject : IsName object) (hproperty : IsName property) (hg₂ : IsGap g₂)
      (hg₃ : IsGap g₃) (hv : v ≠ []) (hbrace : '\x7d' ∉ v) (hstart : StartsOutside isBlank v)
      (hend : EndsOutside isBlank v) (hg₄ : IsGap g₄) :
      Stops ('\x7b' :: g₁ ++ object ++ '.' :: property ++ g₂ ++ '=' :: g₃ ++ v ++ g₄ ++ ['\x7d'])
        ⟨String.ofList object, String.ofList property, .read (String.ofList v)⟩

/-- A keyword and a condition after it. -/
inductive Conditions (keyword : String) : List Char → String → Prop where
  | intro {w g condition : List Char} (hw : IsKeyword keyword w) (hg : IsSeparator g)
      (hcondition : condition ≠ []) :
      Conditions keyword (w ++ g ++ condition) (String.ofList (trimChars condition))

namespace Shape

/-- A line of a shape and the command that it denotes. -/
inductive Denotes : Shape → List Char → Command → Prop where
  | create {w g₁ kind g₂ name : List Char} (hw : IsKeyword "create" w) (hg₁ : IsSeparator g₁)
      (hkind : IsName kind) (hg₂ : IsSeparator g₂) (hname : IsName name) :
      Denotes .create (w ++ g₁ ++ kind ++ g₂ ++ name)
        (.create (String.ofList kind) (String.ofList name))
  | propagate {w g₁ propagator g₂ g₃ spacecraft g₄ : List Char} (hw : IsKeyword "propagate" w)
      (hg₁ : IsSeparator g₁) (hpropagator : IsName propagator) (hg₂ : IsGap g₂)
      (hg₃ : IsGap g₃) (hspacecraft : IsName spacecraft) (hg₄ : IsGap g₄) :
      Denotes .propagate
        (w ++ g₁ ++ propagator ++ g₂ ++ '(' :: g₃ ++ spacecraft ++ g₄ ++ [')'])
        (.propagate (String.ofList propagator) (String.ofList spacecraft) none)
  | propagateUntil {w g₁ propagator g₂ g₃ spacecraft g₄ g₅ clause : List Char}
      {stop : StopClause} (hw : IsKeyword "propagate" w) (hg₁ : IsSeparator g₁)
      (hpropagator : IsName propagator) (hg₂ : IsGap g₂) (hg₃ : IsGap g₃)
      (hspacecraft : IsName spacecraft) (hg₄ : IsGap g₄) (hg₅ : IsGap g₅)
      (hclause : Stops clause stop) :
      Denotes .propagate
        (w ++ g₁ ++ propagator ++ g₂ ++ '(' :: g₃ ++ spacecraft ++ g₄ ++ ')' :: g₅ ++ clause)
        (.propagate (String.ofList propagator) (String.ofList spacecraft) (some stop))
  | set {object property rest : List Char} {v : Value} (hobject : IsName object)
      (hproperty : IsName property) (hrest : Assigns rest v) :
      Denotes .set (object ++ '.' :: property ++ rest)
        (.set (String.ofList object) (String.ofList property) v)
  | report {w rest : List Char} {tokens : List (List Char)} (hw : IsKeyword "report" w)
      (hrest : Fields rest tokens) (htokens : tokens ≠ []) :
      Denotes .report (w ++ rest) (.report (tokens.map String.ofList))
  | save {w g object : List Char} (hw : IsKeyword "save" w) (hg : IsSeparator g)
      (hobject : IsName object) :
      Denotes .save (w ++ g ++ object) (.save (String.ofList object))
  | ifThen {cs : List Char} {condition : String} (h : Conditions "if" cs condition) :
      Denotes .ifThen cs (.ifThen condition)
  | otherwise {w : List Char} (hw : IsKeyword "else" w) : Denotes .otherwise w .otherwise
  | endIf {w : List Char} (hw : IsKeyword "endif" w) : Denotes .endIf w .endIf
  | whileDo {cs : List Char} {condition : String} (h : Conditions "while" cs condition) :
      Denotes .whileDo cs (.whileDo condition)
  | endWhile {w : List Char} (hw : IsKeyword "endwhile" w) : Denotes .endWhile w .endWhile
  | assigned {name rest : List Char} {v : Value} (hname : IsName name)
      (hrest : Assigns rest v) :
      Denotes .variable (name ++ rest) (.variable (String.ofList name) v)
  | declared {w g name rest : List Char} {v : Value} (hw : IsKeyword "var" w)
      (hg : IsSeparator g) (hname : IsName name) (hrest : Assigns rest v) :
      Denotes .variable (w ++ g ++ name ++ rest) (.variable (String.ofList name) v)

end Shape

/-- A line denotes the command of the first shape that it has. -/
def Command.IsDenoted (cs : List Char) (c : Command) : Prop :=
  ∃ earlier shape later, Shape.order = earlier ++ shape :: later ∧ shape.Denotes cs c ∧
    ∀ s ∈ earlier, ∀ c', ¬ s.Denotes cs c'

end FlightScript
