import ScriptLang.Fault
import ScriptLang.Tree.Basic

/-!
The forms of tree nodes, and outlines.

An outline is a tree written down field by field, as it is shown and exchanged. Unlike a program it
may be ill formed: a field can hold anything. `Form.build` checks the fields of a node in order and
refuses the first that is not of the required sort.
-/

namespace ScriptLang

/-- The forms of nodes. -/
inductive Form where
  | integer
  | float
  | bool
  | string
  | unOp
  | binOp
  | logicalOp
  | grouping
  | identifier
  | funcCall
  | stmts
  | printStmt
  | ifStmt
  | whileStmt
  | assignment
  | localAssignment
  | forStmt
  | funcDecl
  | param
  | funcCallStmt
  | retStmt
  deriving DecidableEq, Repr, Inhabited

/-- A tree as it is written down. -/
inductive Outline where
  | datum (d : Datum)
  | line (n : Line)
  | token (t : Token)
  | list (items : List Outline)
  | node (form : Form) (fields : List Outline)
  deriving Inhabited

/-- What a field has to hold. -/
inductive Requirement where
  | any
  | whole
  | real
  | truth
  | text
  | token
  | expr
  | optionalExpr
  | block
  | optionalBlock
  | name
  | call
  | stmtList
  | paramList
  deriving DecidableEq, Repr

namespace Form

/-- The name of a form. -/
def name : Form → String
  | .integer => "Integer"
  | .float => "Float"
  | .bool => "Bool"
  | .string => "String"
  | .unOp => "UnOp"
  | .binOp => "BinOp"
  | .logicalOp => "LogicalOp"
  | .grouping => "Grouping"
  | .identifier => "Identifier"
  | .funcCall => "FuncCall"
  | .stmts => "Stmts"
  | .printStmt => "PrintStmt"
  | .ifStmt => "IfStmt"
  | .whileStmt => "WhileStmt"
  | .assignment => "Assignment"
  | .localAssignment => "LocalAssignment"
  | .forStmt => "ForStmt"
  | .funcDecl => "FuncDecl"
  | .param => "Param"
  | .funcCallStmt => "FuncCallStmt"
  | .retStmt => "RetStmt"

/-- All forms. -/
def all : List Form :=
  [.integer, .float, .bool, .string, .unOp, .binOp, .logicalOp, .grouping, .identifier, .funcCall,
    .stmts, .printStmt, .ifStmt, .whileStmt, .assignment, .localAssignment, .forStmt, .funcDecl,
    .param, .funcCallStmt, .retStmt]

/-- The form with a given name. -/
def ofName? (name : String) : Option Form :=
  all.find? fun f => f.name == name

/-- The fields of a form in order, with what they have to hold. -/
def fields : Form → List (String × Requirement)
  | .integer => [("value", .whole), ("line", .any)]
  | .float => [("value", .real), ("line", .any)]
  | .bool => [("value", .truth), ("line", .any)]
  | .string => [("value", .text), ("line", .any)]
  | .unOp => [("op", .token), ("operand", .expr), ("line", .any)]
  | .binOp => [("op", .token), ("left", .expr), ("right", .expr), ("line", .any)]
  | .logicalOp => [("op", .token), ("left", .expr), ("right", .expr), ("line", .any)]
  | .grouping => [("value", .expr), ("line", .any)]
  | .identifier => [("name", .text), ("line", .any)]
  | .funcCall => [("name", .any), ("args", .any), ("line", .any)]
  | .stmts => [("stmts", .stmtList), ("line", .any)]
  | .printStmt => [("value", .expr), ("end", .any), ("line", .any)]
  | .ifStmt =>
    [("test", .expr), ("then_stmts", .block), ("else_stmts", .optionalBlock), ("line", .any)]
  | .whileStmt => [("test", .expr), ("body_stmts", .block), ("line", .any)]
  | .assignment => [("left", .expr), ("right", .expr), ("line", .any)]
  | .localAssignment => [("left", .expr), ("right", .expr), ("line", .any)]
  | .forStmt =>
    [("ident", .name), ("start", .expr), ("end", .expr), ("step", .optionalExpr),
      ("body_stmts", .block), ("line", .any)]
  | .funcDecl => [("name", .text), ("params", .paramList), ("body_stmts", .any), ("line", .any)]
  | .param => [("name", .text), ("line", .any)]
  | .funcCallStmt => [("expr", .call)]
  | .retStmt => [("value", .expr), ("line", .any)]

/-- Forms of expressions. -/
def isExpr : Form → Bool
  | .integer | .float | .bool | .string | .unOp | .binOp | .logicalOp | .grouping | .identifier
  | .funcCall => true
  | _ => false

/-- Forms of statements; a parameter declares a name and counts as one. -/
def isStmt : Form → Bool
  | .printStmt | .ifStmt | .whileStmt | .assignment | .localAssignment | .forStmt | .funcDecl
  | .param | .funcCallStmt | .retStmt => true
  | _ => false

end Form

namespace Outline

/-- The form of a node. -/
def form? : Outline → Option Form
  | .node form _ => some form
  | _ => none

/-- An expression. -/
def isExpr (o : Outline) : Bool :=
  o.form?.any Form.isExpr

/-- Nothing. -/
def isNone : Outline → Bool
  | .datum .none => true
  | _ => false

/-- The name of the kind of an outline that is not a list. -/
def kind : Outline → String
  | .datum d => d.kind
  | .line _ => "int"
  | .token _ => "Token"
  | .list _ => "list"
  | .node form _ => form.name

/-- The operator of an operation as it is shown. -/
def operatorShown : List Outline → String
  | .token t :: _ => Text.quoted t.lexeme
  | _ => ""

mutual
/-- An outline as it is shown inside others. -/
def shown : Outline → String
  | .datum d => d.shown
  | .line n => toString n
  | .token t => t.shown
  | .list items => "[" ++ ", ".intercalate (shownAll items) ++ "]"
  | .node form fields => nodeShown form fields

/-- The fields of a node, each both as shown inside others and as standing alone. -/
def shownBoth : List Outline → List (String × String)
  | [] => []
  | .datum (.str s) :: rest => (Text.quoted s, s) :: shownBoth rest
  | o :: rest =>
    let s := o.shown
    (s, s) :: shownBoth rest

/-- The text of a node. Names, operators and endings are quoted; other fields stand alone. -/
def nodeShown (form : Form) (fields : List Outline) : String :=
  let parts := shownBoth fields
  let q (i : Nat) : String := (parts[i]?.map (·.1)).getD ""
  let p (i : Nat) : String := (parts[i]?.map (·.2)).getD ""
  let op := operatorShown fields
  match form with
  | .integer => "Integer[" ++ p 0 ++ "]"
  | .float => "Float[" ++ p 0 ++ "]"
  | .bool => "Bool[" ++ p 0 ++ "]"
  | .string => "String[" ++ p 0 ++ "]"
  | .unOp => "UnOp(" ++ op ++ ", " ++ p 1 ++ ")"
  | .binOp => "BinOp(" ++ op ++ ", " ++ p 1 ++ ", " ++ p 2 ++ ")"
  | .logicalOp => "LogicalOp(" ++ op ++ ", " ++ p 1 ++ ", " ++ p 2 ++ ")"
  | .grouping => "Grouping(" ++ p 0 ++ ")"
  | .identifier => "Identifier[" ++ q 0 ++ "]"
  | .funcCall => "FuncCall(" ++ q 0 ++ ", " ++ p 1 ++ ")"
  | .stmts => "Stmts(" ++ p 0 ++ ")"
  | .printStmt => "PrintStmt(" ++ p 0 ++ ", end=" ++ q 1 ++ ")"
  | .ifStmt => "IfStmt(" ++ p 0 ++ ", then:" ++ p 1 ++ ", else:" ++ p 2 ++ ")"
  | .whileStmt => "WhileStmt(" ++ p 0 ++ ", " ++ p 1 ++ ")"
  | .assignment => "Assignment(" ++ p 0 ++ ", " ++ p 1 ++ ")"
  | .localAssignment => "LocalAssignment(" ++ p 0 ++ ", " ++ p 1 ++ ")"
  | .forStmt =>
    "ForStmt(" ++ p 0 ++ ", " ++ p 1 ++ ", " ++ p 2 ++ ", " ++ p 3 ++ ", " ++ p 4 ++ ")"
  | .funcDecl => "FuncDecl(" ++ q 0 ++ ", " ++ p 1 ++ ", " ++ p 2 ++ ")"
  | .param => "Param[" ++ q 0 ++ "]"
  | .funcCallStmt => "FuncCallStmt(" ++ p 0 ++ ")"
  | .retStmt => "RetStmt[" ++ p 0 ++ "]"

/-- The items of a list as they are shown. -/
def shownAll : List Outline → List String
  | [] => []
  | o :: rest => o.shown :: shownAll rest
end

/-- An outline standing alone. -/
def plain : Outline → String
  | .datum d => d.plain
  | o => o.shown

end Outline

namespace Requirement

/-- A sequence in which every member has one of some forms. A text is a sequence without nodes. -/
def listHolds (member : Form → Bool) : Outline → Except Fault Bool
  | .list items => .ok (items.all fun o => o.form?.any member)
  | .datum (.str s) => .ok s.isEmpty
  | .datum (.tuple items) => .ok items.isEmpty
  | o => .error (.type (.iteration o.kind))

/-- Whether a field holds what it has to. -/
def holds (r : Requirement) (o : Outline) : Except Fault Bool :=
  match r with
  | .any => .ok true
  | .whole => .ok (match o with | .datum (.int _) | .datum (.bool _) | .line _ => true | _ => false)
  | .real => .ok (match o with | .datum (.float _) => true | _ => false)
  | .truth => .ok (match o with | .datum (.bool _) => true | _ => false)
  | .text => .ok (match o with | .datum (.str _) => true | _ => false)
  | .token => .ok (match o with | .token _ => true | _ => false)
  | .expr => .ok o.isExpr
  | .optionalExpr => .ok (o.isExpr || o.isNone)
  | .block => .ok (o.form? == some .stmts)
  | .optionalBlock => .ok (o.isNone || o.form? == some .stmts)
  | .name => .ok (o.form? == some .identifier)
  | .call => .ok (o.form? == some .funcCall)
  | .stmtList => listHolds Form.isStmt o
  | .paramList => listHolds (· == .param) o

/-- Checks fields against what they have to hold, in order. -/
def checkAll : List (String × Requirement) → List Outline → Except Fault Unit
  | (_, r) :: rs, o :: os =>
    match r.holds o with
    | .error e => .error e
    | .ok true => checkAll rs os
    | .ok false => .error (.assertion o.plain)
  | _, _ => .ok ()

end Requirement

/-- A node of a form, if its fields hold what they have to. -/
def Form.build (form : Form) (fields : List Outline) : Except Fault Outline :=
  (Requirement.checkAll form.fields fields).map fun _ => .node form fields

end ScriptLang
