import JspLayout.Command.Template

/-! The attributes of numbers.

    A number has a real and an imaginary part, and one that is whole a numerator and a denominator.
    No other attributes are known, neither of numbers nor of other values. -/

namespace JspLayout.Template

/-- A member of a value. -/
def member (v : Value) (name : Text) : Except Error Value :=
  let number (x one zero : Value) : Except Error Value :=
    if name = "real".toList ∨ name = "numerator".toList then .ok x
    else if name = "imag".toList then .ok zero
    else if name = "denominator".toList then .ok one
    else .error (.fault .noAttribute)
  match v with
  | .int i => number (.int i) (.int 1) (.int 0)
  | .bool b => number (.int (if b then 1 else 0)) (.int 1) (.int 0)
  | .double x =>
    if name = "real".toList then .ok (.double x)
    else if name = "imag".toList then .ok (.double (.zero false))
    else .error (.fault .noAttribute)
  | _ => .error (.fault .noAttribute)

/-- The value that steps lead to. -/
def walk (v : Value) : List Access → Except Error Value
  | [] => .ok v
  | .member name :: rest => do walk (← member v name) rest
  | .index key :: rest => do walk (← item v key) rest
  | .malformed :: _ => .error .malformed

/-- Fields that go into the attributes of numbers. -/
def numberAttributes : Attributes := fun v steps conversion => do
  let v ← walk v steps
  pure (format (← convert conversion v))

end JspLayout.Template
