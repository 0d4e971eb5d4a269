/-! Replies given in turn.

    What lies outside the program, such as the programs it runs, is known by its replies alone. A
    script holds the replies still to come; the last one is given for ever. It also keeps what was
    asked, in order. -/

namespace JspLayout

/-- The replies to questions of type `α`, and the questions asked so far. -/
structure Script (α β : Type) where
  replies : List (α → β)
  /-- The reply where there are none. -/
  fallback : α → β
  asked : List α := []

namespace Script

variable {α β : Type}

/-- The reply to a question, and the script after it. -/
def ask (s : Script α β) (a : α) : β × Script α β :=
  match s.replies with
  | [] => (s.fallback a, { s with asked := s.asked ++ [a] })
  | [last] => (last a, { s with asked := s.asked ++ [a] })
  | next :: rest => (next a, { s with replies := rest, asked := s.asked ++ [a] })

end Script

end JspLayout
