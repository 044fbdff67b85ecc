import ScriptLang.Code.Basic
import ScriptLang.Number.Display

/-!
Listings of compiled code: one numbered line for each instruction with at most one operand.
-/

namespace ScriptLang.Code

/-- The number of an instruction, eight digits wide. -/
def address (n : Nat) : String := Number.padded 8 n

/-- The second item of a datum. -/
def second : Datum → Except Fault Datum
  | .tuple (_ :: d :: _) => .ok d
  | .tuple _ => .error (.index .tuple)
  | .str s =>
    match s.toList with
    | _ :: c :: _ => .ok (.str (String.singleton c))
    | _ => .error (.index .text)
  | d => .error (.type (.subscript d.kind))

/-- The line of an instruction; instructions with more operands have none. -/
def line (n : Nat) (items : List Cell) : Except Fault String :=
  let indented := address n ++ "     "
  match items with
  | [] => .error (.index .list)
  | op :: operands =>
    let name := op.toDatum.plain
    if name == "LABEL" then
      match operands with
      | [] => .error (.index .tuple)
      | target :: _ => .ok (address n ++ " " ++ target.toDatum.plain ++ ":\n")
    else if name == "PUSH" then
      match operands with
      | [] => .error (.index .tuple)
      | cell :: _ =>
        match second cell.toDatum with
        | .ok d => d.stringify.map fun s => indented ++ "PUSH " ++ s ++ "\n"
        | .error f => .error f
    else
      match operands with
      | [] => .ok (indented ++ name ++ "\n")
      | [operand] => .ok (indented ++ name ++ " " ++ operand.toDatum.plain ++ "\n")
      | _ => .ok ""

/-- The listing of the instructions from number `n` on, up to one that cannot be listed. -/
def listingFrom (n : Nat) : List Instr → String → String × Option Fault
  | [], text => (text, none)
  | i :: rest, text =>
    match line n i.items with
    | .ok s => listingFrom (n + 1) rest (text ++ s)
    | .error f => (text, some f)

/-- The listing of a program. -/
def listing (code : List Instr) : String × Option Fault :=
  listingFrom 0 code ""

end ScriptLang.Code
