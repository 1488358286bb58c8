import Offside.Machine.State

/-! Expressions, statements and values are compared part by part, so it can be decided whether two of them
are equal, and with them two tasks, two stacks and two frames of a machine. What a machine is at after so many
steps of a given program is decided in this way. -/
namespace Offside

/-! ### Expressions -/

mutual

def Expr.same : Expr → Expr → Bool
  | .number x, .number y => x = y
  | .text x, .text y => x = y
  | .truth x, .truth y => x = y
  | .character x, .character y => x = y
  | .variable x, .variable y => x = y
  | .not a, .not b => a.same b
  | .binary op a a', .binary op' b b' => op = op' && a.same b && a'.same b'
  | .call object method as, .call object' method' bs => object = object' && method = method' && Expr.sameAll as bs
  | .create cls as, .create cls' bs => cls = cls' && Expr.sameAll as bs
  | _, _ => false

def Expr.sameAll : List Expr → List Expr → Bool
  | [], [] => true
  | a :: as, b :: bs => a.same b && Expr.sameAll as bs
  | _, _ => false

end

mutual

theorem Expr.same_iff : (a b : Expr) → (a.same b = true ↔ a = b)
  | .number _, b | .text _, b | .truth _, b | .character _, b | .variable _, b => by cases b <;> simp [Expr.same]
  | .not a, b => by cases b <;> simp [Expr.same, Expr.same_iff a]
  | .binary _ a a', b => by cases b <;> simp [Expr.same, Expr.same_iff a, Expr.same_iff a', and_assoc]
  | .call _ _ as, b | .create _ as, b => by cases b <;> simp [Expr.same, Expr.sameAll_iff as, and_assoc]

theorem Expr.sameAll_iff : (as bs : List Expr) → (Expr.sameAll as bs = true ↔ as = bs)
  | [], bs => by cases bs <;> simp [Expr.sameAll]
  | a :: as, bs => by cases bs <;> simp [Expr.sameAll, Expr.same_iff a, Expr.sameAll_iff as]

end

instance : DecidableEq Expr := fun a b => decidable_of_iff _ (a.same_iff b)

deriving instance DecidableEq for Call

/-! ### Statements -/

mutual

def Stmt.same : Stmt → Stmt → Bool
  | .assign target value span, .assign target' value' span' => target = target' && value = value' && span = span'
  | .call c targets span, .call c' targets' span' => c = c' && targets = targets' && span = span'
  | .loop target source body span, .loop target' source' body' span' =>
    target = target' && source = source' && Stmt.sameAll body body' && span = span'
  | .branch condition yes none span, .branch condition' yes' none span' =>
    condition = condition' && Stmt.sameAll yes yes' && span = span'
  | .branch condition yes (some no) span, .branch condition' yes' (some no') span' =>
    condition = condition' && Stmt.sameAll yes yes' && Stmt.sameAll no no' && span = span'
  | _, _ => false

def Stmt.sameAll : List Stmt → List Stmt → Bool
  | [], [] => true
  | a :: as, b :: bs => a.same b && Stmt.sameAll as bs
  | _, _ => false

end

mutual

theorem Stmt.same_iff : (a b : Stmt) → (a.same b = true ↔ a = b)
  | .assign .., b | .call .., b => by cases b <;> simp [Stmt.same, and_assoc]
  | .loop _ _ body _, b => by cases b <;> simp [Stmt.same, Stmt.sameAll_iff body, and_assoc]
  | .branch _ yes none _, b => by
    cases b with
    | branch _ _ no _ => cases no <;> simp [Stmt.same, Stmt.sameAll_iff yes, and_assoc]
    | _ => simp [Stmt.same]
  | .branch _ yes (some no) _, b => by
    cases b with
    | branch _ _ no' _ => cases no' <;> simp [Stmt.same, Stmt.sameAll_iff yes, Stmt.sameAll_iff no, and_assoc]
    | _ => simp [Stmt.same]

theorem Stmt.sameAll_iff : (as bs : List Stmt) → (Stmt.sameAll as bs = true ↔ as = bs)
  | [], bs => by cases bs <;> simp [Stmt.sameAll]
  | a :: as, bs => by cases bs <;> simp [Stmt.sameAll, Stmt.same_iff a, Stmt.sameAll_iff as]

end

instance : DecidableEq Stmt := fun a b => decidable_of_iff _ (a.same_iff b)

deriving instance DecidableEq for Member
deriving instance DecidableEq for ConstructorDecl
deriving instance DecidableEq for Action
deriving instance DecidableEq for Method
deriving instance DecidableEq for Class

/-! ### Values -/

mutual

def Value.same : Value → Value → Bool
  | .number x, .number y => x = y
  | .text x, .text y => x = y
  | .truth x, .truth y => x = y
  | .character x, .character y => x = y
  | .object cls fields, .object cls' fields' => cls = cls' && Value.sameFields fields fields'
  | _, _ => false

def Value.sameFields : List (String × Value) → List (String × Value) → Bool
  | [], [] => true
  | (name, v) :: fields, (name', w) :: fields' => name = name' && v.same w && Value.sameFields fields fields'
  | _, _ => false

end

mutual

theorem Value.same_iff : (v w : Value) → (v.same w = true ↔ v = w)
  | .number _, w | .text _, w | .truth _, w | .character _, w => by cases w <;> simp [Value.same]
  | .object _ fields, w => by cases w <;> simp [Value.same, Value.sameFields_iff fields]

theorem Value.sameFields_iff : (vs ws : List (String × Value)) → (Value.sameFields vs ws = true ↔ vs = ws)
  | [], ws => by cases ws <;> simp [Value.sameFields]
  | (_, v) :: vs, ws => by
    cases ws <;> simp [Value.sameFields, Value.same_iff v, Value.sameFields_iff vs, Prod.ext_iff]

end

instance : DecidableEq Value := fun v w => decidable_of_iff _ (v.same_iff w)

/-! ### Machines -/

deriving instance DecidableEq for Cell
deriving instance DecidableEq for Frame
deriving instance DecidableEq for Loop
deriving instance DecidableEq for Goal
deriving instance DecidableEq for Task
deriving instance DecidableEq for Pending

end Offside
