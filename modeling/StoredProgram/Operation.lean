import StoredProgram.Number.Arithmetic

/-!
The four arithmetic operations of the machine.
-/
namespace StoredProgram

inductive Operation where
  | add
  | subtract
  | multiply
  | divide
deriving DecidableEq

namespace Operation

/-- Division by zero is not special: it gives an infinity or a NaN. -/
def apply : Operation → Number → Number → Number
  | add, a, b => a + b
  | subtract, a, b => a - b
  | multiply, a, b => a * b
  | divide, a, b => a / b

def name : Operation → String
  | add => "Add"
  | subtract => "Subtract"
  | multiply => "Multiply"
  | divide => "Divide"

end Operation

end StoredProgram
