import Definiens.Token.Lexeme

/-!
# Definitions as trees

A definition names a type and says by a formula what it is.  Formulas are built from equalities and
predicates of terms, terms from variables and functions.  Each node keeps the token it stands on, so
a tree knows its places in the source.
-/

namespace Definiens

/-- A type written out, `type[name]`. -/
structure TypeLiteral where
  token : Token
  deriving DecidableEq, Repr

structure SymbolLiteral where
  token : Token
  deriving DecidableEq, Repr

structure Variable where
  token : Token
  deriving DecidableEq, Repr

inductive Connective where
  | and
  | or
  | implies
  | iff
  deriving DecidableEq, Repr

inductive Quantifier where
  | universal
  | existential
  deriving DecidableEq, Repr

/-- What is said of the arguments of a predicate: that they are of a type, or membership. -/
inductive PredicateName where
  | type (literal : TypeLiteral)
  | membership (literal : SymbolLiteral)
  deriving DecidableEq, Repr

inductive Term where
  | var (v : Variable)
  | function (token : Token) (args : List Term)

inductive Formula where
  | equal (token : Token) (lhs rhs : Term)
  | negation (token : Token) (inner : Formula)
  | connective (token : Token) (op : Connective) (lhs rhs : Formula)
  | quantifier (token : Token) (kind : Quantifier) (bound : Variable) (body : Formula)
  | predicate (name : PredicateName) (args : List Term)

/-- A definition: the token `def`, the type that is defined, and what it is. -/
structure Definition where
  token : Token
  name : TypeLiteral
  body : Formula

/-! ## Names and anchors -/

namespace Connective

def name : Connective → String
  | .and => "And"
  | .or => "Or"
  | .implies => "Implies"
  | .iff => "Iff"

def kind : Connective → Kind
  | .and => .and
  | .or => .or
  | .implies => .implies
  | .iff => .iff

def ofKind? : Kind → Option Connective
  | .and => some .and
  | .or => some .or
  | .implies => some .implies
  | .iff => some .iff
  | _ => none

theorem ofKind?_eq_some {kind : Kind} {op : Connective} :
    ofKind? kind = some op ↔ kind = op.kind := by
  cases kind <;> cases op <;> decide

end Connective

namespace Quantifier

def name : Quantifier → String
  | .universal => "Forall"
  | .existential => "Exists"

def kind : Quantifier → Kind
  | .universal => .universal
  | .existential => .existential

def ofKind? : Kind → Option Quantifier
  | .universal => some .universal
  | .existential => some .existential
  | _ => none

theorem ofKind?_eq_some {kind : Kind} {quantifier : Quantifier} :
    ofKind? kind = some quantifier ↔ kind = quantifier.kind := by
  cases kind <;> cases quantifier <;> decide

end Quantifier

/-- The text between the brackets of `type[name]`, or the whole text if it has not that form. -/
def TypeLiteral.name (literal : TypeLiteral) : String :=
  let text := literal.token.text.toList
  let inside := text.drop typeOpening.length
  if typeOpening.isPrefixOf text && inside.getLast? == some typeClosing then
    String.ofList inside.dropLast
  else
    literal.token.text

def SymbolLiteral.name (literal : SymbolLiteral) : String := literal.token.text

def Variable.symbol (v : Variable) : String := v.token.text

namespace PredicateName

def membershipSymbol : String := "in"

def token : PredicateName → Token
  | .type literal => literal.token
  | .membership literal => literal.token

def name : PredicateName → String
  | .type literal => literal.name
  | .membership literal => literal.name

/-- The predicate that a token names: a type, or membership if it is the symbol for that. -/
def ofToken? (token : Token) : Option PredicateName :=
  match token.kind with
  | .type => some (.type ⟨token⟩)
  | .symbol => if token.text = membershipSymbol then some (.membership ⟨token⟩) else none
  | _ => none

end PredicateName

def Term.token : Term → Token
  | .var v => v.token
  | .function token _ => token

def Term.symbol (term : Term) : String := term.token.text

/-- The token that a formula stands on; for a predicate it is that of its name. -/
def Formula.token : Formula → Token
  | .equal token _ _ => token
  | .negation token _ => token
  | .connective token _ _ _ => token
  | .quantifier token _ _ _ => token
  | .predicate name _ => name.token

/-! ## Equality -/

namespace Term

mutual

/-- Decides whether two terms are equal, places included. -/
def decideEq : (a b : Term) → Decidable (a = b)
  | .var v, .var w =>
    if h : v = w then isTrue (by rw [h]) else isFalse fun same => h (Term.var.inj same)
  | .function f as, .function g bs =>
    if h : f = g then
      match decideEqList as bs with
      | isTrue args => isTrue (by rw [h, args])
      | isFalse args => isFalse fun same => args (Term.function.inj same).2
    else isFalse fun same => h (Term.function.inj same).1
  | .var _, .function _ _ => isFalse nofun
  | .function _ _, .var _ => isFalse nofun

def decideEqList : (as bs : List Term) → Decidable (as = bs)
  | [], [] => isTrue rfl
  | a :: as, b :: bs =>
    match decideEq a b with
    | isTrue first =>
      match decideEqList as bs with
      | isTrue others => isTrue (by rw [first, others])
      | isFalse others => isFalse fun same => others (List.cons.inj same).2
    | isFalse first => isFalse fun same => first (List.cons.inj same).1
  | [], b :: bs => isFalse (List.cons_ne_nil b bs).symm
  | a :: as, [] => isFalse (List.cons_ne_nil a as)

end

instance : DecidableEq Term := decideEq

end Term

deriving instance DecidableEq for Formula

deriving instance DecidableEq for Definition

end Definiens
