import TapeMachine.Machine.Basic

/-!
# Pictures of a machine

`Machine.render` draws the tape around the head on one line, a caret under the head on the next,
and the state on the last.

Addresses are 64-bit words. A window may ask for cells beyond the last address, so the sums that
make up its ends are taken modulo `2 ^ 64`; `address_of_mem` says that this changes nothing as
long as they are addresses.
-/

namespace TapeMachine.Machine

/-- The address that 64 bits keep of a number. -/
def address (n : Int) : Int :=
  n.bmod UInt64.size

/-- A number in the range of addresses is its own address. -/
theorem address_of_mem {n : Int} (hlo : -UInt64.size ≤ 2 * n) (hhi : 2 * n < UInt64.size) :
    address n = n :=
  Int.bmod_eq_of_le (by omega) (by omega)

/-- The cells shown beyond the tape and the head, unless something else is asked for. -/
def defaultWindow : UInt64 := 10

/-- The cells shown beyond the tape and the head when `window` are asked for: never more than the
tape limit, and a quarter of the addresses on one side if that is no address. -/
def reach (m : Machine) (window : UInt64) : Int :=
  let cells := min window.toNat m.settings.maxTapeLen.toNat
  if 2 * cells < UInt64.size then cells else (UInt64.size / 2 - 1) / 4

/-- The least address of a stored cell and of the head. -/
def low (m : Machine) : Int :=
  (m.now.tape.first?.map (min · m.now.head)).getD m.now.head

/-- The greatest address of a stored cell and of the head. -/
def high (m : Machine) : Int :=
  (m.now.tape.last?.map (max · m.now.head)).getD m.now.head

/-- The first address shown. -/
def leftEnd (m : Machine) (window : UInt64) : Int :=
  address (m.low - m.reach window)

/-- The last address shown. -/
def rightEnd (m : Machine) (window : UInt64) : Int :=
  address (m.high + m.reach window)

/-- The row of cells. -/
def row (m : Machine) (window : UInt64) : List Char :=
  m.now.tape.slice m.settings.blank (m.leftEnd window) (m.rightEnd window)

/-- The number of cells to the left of the caret. -/
def caret (m : Machine) (window : UInt64) : Nat :=
  (address (m.now.head - m.leftEnd window)).toNat

/-- The cells of the tape with `window` cells beyond both the tape and the head, a caret under
the head, and the state. -/
def render (m : Machine) (window : UInt64) : String :=
  String.ofList (m.row window) ++ "\n" ++ String.ofList (List.replicate (m.caret window) ' ') ++
    "^\n" ++ m.now.state

end TapeMachine.Machine
