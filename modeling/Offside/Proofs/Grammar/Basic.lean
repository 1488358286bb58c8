import Offside.Number.Read
import Offside.Program.Basic
import Offside.Token.Basic

/-! The grammar of programs, as derivations over token sequences.

A `Language` relates a sequence of tokens to what it stands for. Nothing here says how tokens are
read: a production lists its parts in order, and a sequence derives whatever some way of cutting it
into those parts gives. Line ends may be cut in more than one way, since a line takes one or more
and blank lines may follow it; that the result is the same for all of them is a theorem about the
reader.

A span covers the tokens of a phrase, from the start of the first to the end of the last. -/
namespace Offside

/-- Which token sequences stand for what. -/
abbrev Language (α : Type) := List Token → α → Prop

/-- From the start of the first token to the end of the last. -/
def spanOf : List Token → Span
  | [] => .single ⟨1, 1, ""⟩
  | first :: rest => ⟨first.span.start, (rest.getLastD first).span.stop⟩

namespace Grammar

variable {α : Type}

/-! ### Repetitions -/

/-- Any number of line ends. -/
def Blank (ts : List Token) : Prop := ∀ t ∈ ts, t.kind = .newline

/-- One line end or more. -/
structure LineEnd (ts : List Token) : Prop where
  some : ts ≠ []
  blank : Blank ts

/-- One item or more, with separators between them. -/
inductive Separated (separator : Kind) (item : Language α) : Language (List α)
  | one {ts a} : item ts a → Separated separator item ts [a]
  | more {ts a t us as} : item ts a → t.kind = separator → Separated separator item us as →
      Separated separator item (ts ++ t :: us) (a :: as)

/-- A list or nothing, which stands for the empty list. -/
inductive Optional (list : Language (List α)) : Language (List α)
  | absent : Optional list [] []
  | present {ts as} : list ts as → Optional list ts as

/-- A phrase and the end of its line. -/
inductive Line (phrase : Language α) : Language α
  | mk {ts a ns} : phrase ts a → LineEnd ns → Line phrase (ts ++ ns) a

/-- Items, each of them after any number of blank lines. -/
inductive Items (item : Language α) : Language (List α)
  | nil : Items item [] []
  | cons {ns ts a us as} : Blank ns → item ts a → Items item us as →
      Items item (ns ++ ts ++ us) (a :: as)

/-- An indented block of items. -/
inductive Block (item : Language α) : Language (List α)
  | mk {opener ts as ns closer} : opener.kind = .indent → Items item ts as → Blank ns →
      closer.kind = .dedent → Block item (opener :: (ts ++ ns ++ [closer])) as

/-- Operands with operators between them, grouped to the left. -/
inductive Chain (op? : Kind → Option Operator) (operand : Language Expr) : Language Expr
  | one {ts e} : operand ts e → Chain op? operand ts e
  | more {ts l t op us r} : Chain op? operand ts l → op? t.kind = some op → operand us r →
      Chain op? operand (ts ++ t :: us) (.binary op l r)

/-! ### Expressions -/

/-- The operators of products. -/
def productOp? : Kind → Option Operator
  | .times => some (.arith .multiply)
  | .divide => some (.arith .divide)
  | .modulo => some (.arith .modulo)
  | _ => none

/-- The operators of sums. -/
def sumOp? : Kind → Option Operator
  | .plus => some (.arith .add)
  | .minus => some (.arith .subtract)
  | _ => none

/-- The operators of comparisons. -/
def compareOp? : Kind → Option Operator
  | .equal => some (.compare .equal)
  | .notEqual => some (.compare .notEqual)
  | .less => some (.compare .less)
  | .greater => some (.compare .greater)
  | .lessEqual => some (.compare .lessEqual)
  | .greaterEqual => some (.compare .greaterEqual)
  | _ => none

/-- The operator of conjunctions. -/
def andOp? : Kind → Option Operator
  | .and => some (.logic .and)
  | _ => none

/-- What a name in front of a dot qualifies a call by; a name without letters is no qualifier. -/
inductive Qualifier : String → Option String → Prop
  | absent : Qualifier "" none
  | present {name} : name ≠ "" → Qualifier name (some name)

mutual

/-- What stands by itself. -/
inductive Primary : Language Expr
  | truth {t} : t.kind = .trueWord → Primary [t] (.truth true)
  | falsity {t} : t.kind = .falseWord → Primary [t] (.truth false)
  | number {t value} : t.kind = .number → Number.read? t.text = some value →
      Primary [t] (.number value)
  | text {t} : t.kind = .text → Primary [t] (.text t.text)
  | character {t c cs} : t.kind = .character → t.text.toList = c :: cs →
      Primary [t] (.character c)
  | parenthesized {opener ts e closer} : opener.kind = .leftParen → Disjunction ts e →
      closer.kind = .rightParen → Primary (opener :: (ts ++ [closer])) e
  | create {first name ts es} : first.kind = .newWord → name.kind = .word → Arguments ts es →
      Primary (first :: name :: ts) (.create name.text es)
  | call {ts c} : Invocation ts c → Primary ts (.call c.object c.method c.arguments)
  | variable {t} : t.kind = .word → Primary [t] (.variable t.text)

/-- A call, with a qualifier or without. -/
inductive Invocation : Language Call
  | own {name ts es} : name.kind = .word → Arguments ts es →
      Invocation (name :: ts) ⟨none, name.text, es⟩
  | qualified {object dot name ts es q} : object.kind = .word → Qualifier object.text q →
      dot.kind = .dot → name.kind = .word → Arguments ts es →
      Invocation (object :: dot :: name :: ts) ⟨q, name.text, es⟩

/-- Arguments, parentheses included. -/
inductive Arguments : Language (List Expr)
  | mk {opener ts es closer} : opener.kind = .leftParen → Optional (Separated .comma Disjunction) ts es →
      closer.kind = .rightParen → Arguments (opener :: (ts ++ [closer])) es

/-- Sums, at most one comparison between two of them, and negation in front. -/
inductive Comparison : Language Expr
  | not {t ts e} : t.kind = .not → Comparison ts e → Comparison (t :: ts) (.not e)
  | sum {ts e} : Chain sumOp? (Chain productOp? Primary) ts e → Comparison ts e
  | compare {ts l t op us r} : Chain sumOp? (Chain productOp? Primary) ts l →
      compareOp? t.kind = some op → Chain sumOp? (Chain productOp? Primary) us r →
      Comparison (ts ++ t :: us) (.binary op l r)

/-- The right side of `or` takes everything after it. -/
inductive Disjunction : Language Expr
  | one {ts e} : Chain andOp? Comparison ts e → Disjunction ts e
  | or {ts l t us r} : Chain andOp? Comparison ts l → t.kind = .or → Disjunction us r →
      Disjunction (ts ++ t :: us) (.binary (.logic .or) l r)

end

abbrev Product : Language Expr := Chain productOp? Primary

abbrev Summation : Language Expr := Chain sumOp? Product

abbrev Conjunction : Language Expr := Chain andOp? Comparison

/-- Expressions are disjunctions, of one operand perhaps. -/
abbrev Expression : Language Expr := Disjunction

/-! ### Statements -/

inductive Name : Language String
  | mk {t} : t.kind = .word → Name [t] t.text

/-- The first two tokens are those of a call without a qualifier. -/
def StartsCall : List Token → Prop
  | first :: second :: _ => first.kind = .word ∧ second.kind = .leftParen
  | _ => False

/-- Statements of one line, its end aside. Whether the one variable of an equation receives what a
call returns or is assigned a value depends on how the right side starts. -/
inductive Simple : Language Stmt
  | call {ts c} : Invocation ts c → Simple ts (.call c [] (spanOf ts))
  | receiveMany {ts names t us c} : Separated .comma Name ts names → 2 ≤ names.length →
      t.kind = .assign → Invocation us c →
      Simple (ts ++ t :: us) (.call c names (spanOf (ts ++ t :: us)))
  | receiveOne {target t us c} : target.kind = .word → t.kind = .assign → Invocation us c →
      StartsCall us →
      Simple (target :: t :: us) (.call c [target.text] (spanOf (target :: t :: us)))
  | assign {target t us e} : target.kind = .word → t.kind = .assign → Expression us e →
      ¬ StartsCall us →
      Simple (target :: t :: us) (.assign target.text e (spanOf (target :: t :: us)))

/-- The variable of a loop and its equals sign, if it has one. -/
inductive Target : Language (Option String)
  | absent : Target [] none
  | present {name t} : name.kind = .word → t.kind = .assign → Target [name, t] (some name.text)

inductive Statement : Language Stmt
  | simple {ts s} : Line Simple ts s → Statement ts s
  | branch {first ts e ns us yes} : first.kind = .ifWord → Expression ts e → LineEnd ns →
      Block Statement us yes →
      Statement (first :: (ts ++ ns ++ us)) (.branch e yes none (spanOf (first :: ts)))
  | branchElse {first ts e ns us yes other ms vs no} : first.kind = .ifWord → Expression ts e →
      LineEnd ns → Block Statement us yes → other.kind = .elseWord → LineEnd ms →
      Block Statement vs no →
      Statement (first :: (ts ++ ns ++ us ++ other :: (ms ++ vs)))
        (.branch e yes (some no) (spanOf (first :: ts)))
  | loop {first ws target ts e ns us body} : first.kind = .loopWord → Target ws target →
      Expression ts e → LineEnd ns → Optional (Block Statement) us body →
      Statement (first :: (ws ++ ts ++ ns ++ us)) (.loop target e body (spanOf (first :: (ws ++ ts))))

/-! ### Declarations -/

inductive Declaration : Language Decl
  | mk {type name} : type.kind = .word → name.kind = .word →
      Declaration [type, name] ⟨type.text, name.text⟩

abbrev Declarations : Language (List Decl) := Separated .comma Declaration

/-- Parameters, parentheses included. -/
inductive Parameters : Language (List Decl)
  | mk {opener ts ds closer} : opener.kind = .leftParen → Optional Declarations ts ds →
      closer.kind = .rightParen → Parameters (opener :: (ts ++ [closer])) ds

/-- A colon and what is returned, or neither. -/
inductive Returns : Language (List Decl)
  | absent : Returns [] []
  | present {t ts ds} : t.kind = .colon → Declarations ts ds → Returns (t :: ts) ds

inductive HeaderLine : Language Header
  | mk {name ts params us rets} : name.kind = .word → Parameters ts params → Returns us rets →
      HeaderLine (name :: (ts ++ us)) ⟨name.text, params, rets⟩

inductive Interface : Language InterfaceDecl
  | mk {first name ns ts methods} : first.kind = .interfaceWord → name.kind = .word → LineEnd ns →
      Block (Line HeaderLine) ts methods →
      Interface (first :: name :: (ns ++ ts)) ⟨name.text, methods, spanOf [first, name]⟩

/-- A line of a body is a local variable or a statement. -/
inductive BodyLine : Language (List Decl × List Stmt)
  | decl {ts d} : Line Declaration ts d → BodyLine ts ([d], [])
  | stmt {ts s} : Statement ts s → BodyLine ts ([], [s])

/-- Local variables and statements in any order; a body has those of all its lines. -/
inductive Body : Language (List Decl × List Stmt)
  | mk {ts lines} : Block BodyLine ts lines → Body ts (lines.flatMap Prod.fst, lines.flatMap Prod.snd)

/-- An accessor or a mutator with its body and blank lines after it, or nothing. -/
inductive FieldBody (opener : Kind) : Language (List Stmt)
  | absent : FieldBody opener [] []
  | present {t colon ns ts body ms} : t.kind = opener → colon.kind = .colon → LineEnd ns →
      Block Statement ts body → Blank ms → FieldBody opener (t :: colon :: (ns ++ ts ++ ms)) body

inductive MemberItem : Language Member
  | plain {ts d} : Line Declaration ts d → MemberItem ts ⟨d, [], []⟩
  | withBodies {ts d opener ns us accessor vs mutator closer} : Line Declaration ts d →
      opener.kind = .indent → Blank ns → FieldBody .accessorWord us accessor →
      FieldBody .mutatorWord vs mutator → closer.kind = .dedent →
      MemberItem (ts ++ opener :: (ns ++ us ++ vs ++ [closer])) ⟨d, accessor, mutator⟩

inductive ConstructorItem : Language ConstructorDecl
  | plain {first ts params ns} : first.kind = .constructWord → Parameters ts params → LineEnd ns →
      ConstructorItem (first :: (ts ++ ns)) ⟨params, [], [], spanOf (first :: ts)⟩
  | withBody {first ts params ns us body} : first.kind = .constructWord → Parameters ts params →
      LineEnd ns → Body us body →
      ConstructorItem (first :: (ts ++ ns ++ us)) ⟨params, body.1, body.2, spanOf (first :: ts)⟩

/-- The words `private` and `shared`, in any order and number. -/
def Modifiers (ts : List Token) : Prop := ∀ t ∈ ts, t.kind = .privateWord ∨ t.kind = .sharedWord

/-- Some token is of the kind. -/
def has (kind : Kind) (ts : List Token) : Bool := ts.any (·.kind = kind)

inductive MethodItem : Language MethodDecl
  | mk {ms ts header ns us body} : Modifiers ms → HeaderLine ts header → LineEnd ns → Body us body →
      MethodItem (ms ++ ts ++ ns ++ us)
        ⟨header, has .privateWord ms, has .sharedWord ms, body.1, body.2, spanOf (ms ++ ts)⟩

/-- A part of a class is a field, a constructor or a method. -/
inductive ClassPart : Language ClassBody
  | constructor {ts c} : ConstructorItem ts c → ClassPart ts ([], [c], [])
  | method {ts m} : MethodItem ts m → ClassPart ts ([], [], [m])
  | member {ts m} : MemberItem ts m → ClassPart ts ([m], [], [])

/-- The names after `implements`, or nothing. -/
inductive Implemented : Language (List String)
  | absent : Implemented [] []
  | present {t ts names} : t.kind = .implementsWord → Separated .comma Name ts names →
      Implemented (t :: ts) names

/-- A class has the fields, the constructors and the methods of all its parts. -/
inductive ClassDeclaration : Language ClassDecl
  | mk {first name ts interfaces ns us parts} : first.kind = .classWord → name.kind = .word →
      Implemented ts interfaces → LineEnd ns → Block ClassPart us parts →
      ClassDeclaration (first :: name :: (ts ++ ns ++ us)) {
        name := name.text
        interfaces
        members := parts.flatMap (·.1)
        constructors := parts.flatMap (·.2.1)
        methods := parts.flatMap (·.2.2)
        span := spanOf (first :: name :: ts) }

/-! ### Programs -/

/-- An interface or a class is a program of its own. -/
inductive ProgramPart : Language Program
  | interface {ts d} : Interface ts d → ProgramPart ts ⟨[d], []⟩
  | cls {ts d} : ClassDeclaration ts d → ProgramPart ts ⟨[], [d]⟩

/-- Interfaces and classes in any order, each with any number of blank lines after it. -/
inductive ProgramParts : Language (List Program)
  | nil : ProgramParts [] []
  | cons {ts part ns us parts} : ProgramPart ts part → Blank ns → ProgramParts us parts →
      ProgramParts (ts ++ ns ++ us) (part :: parts)

/-- A program has the interfaces and the classes of all its parts. -/
inductive WholeProgram : Language Program
  | mk {ns ts parts} : Blank ns → ProgramParts ts parts →
      WholeProgram (ns ++ ts) ⟨parts.flatMap Program.interfaces, parts.flatMap Program.classes⟩

end Grammar

end Offside
