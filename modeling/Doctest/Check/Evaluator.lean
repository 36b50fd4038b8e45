/-!
# Evaluators

What checking asks of the language of the examples. The language is a parameter: its values are
of any type, and running code has effects in any monad.
-/

namespace Doctest

/-- A language whose examples can be checked. A value that code raises is a result as good as one
that it gives. -/
structure Evaluator (m : Type → Type) (V : Type) where
  /-- Runs code: the value it gives, or the one it raises. -/
  evaluate : String → m (Except V V)
  /-- Awaits a value: what it is fulfilled with, or what it is rejected with. -/
  settle : V → m (Except V V)
  /-- Reads a property of a value, or raises what keeps it from that. -/
  property : V → String → m (Except V V)
  /-- A value with one property. -/
  record : String → V → m V
  /-- A value that is a text. -/
  text : String → m V
  /-- The text that a value is converted to. -/
  display : V → m String
  /-- The message of a value that was raised. -/
  errorMessage : V → m String
  /-- Whether two values are equal in what they hold. -/
  deepEquals : V → V → m Bool
  /-- The text that shows a value on one line. -/
  inspect : V → m String

end Doctest
