import TypedScript.Syntax.Tree

/-! # Equality of trees

Two trees are equal if they have the same nodes with the same spans. Numbers compare as floats do, so a
tree with a literal that is no number differs from itself, and zero equals negative zero.
-/

namespace TypedScript.Syntax

mutual

def NamedType.same : NamedType → NamedType → Bool
  | ⟨n, a, k, s⟩, ⟨n', a', k', s'⟩ => n == n' && sameTypes? a a' && k == k' && s == s'
termination_by structural t => t

def FunctionType.same : FunctionType → FunctionType → Bool
  | ⟨p, r, t, k, s⟩, ⟨p', r', t', k', s'⟩ =>
    sameParameters p p' && r.same r' && sameNamed? t t' && k == k' && s == s'
termination_by structural t => t

def TypeNode.same : TypeNode → TypeNode → Bool
  | .named t, .named t' => t.same t'
  | .function t, .function t' => t.same t'
  | _, _ => false
termination_by structural t => t

def sameType? : Option TypeNode → Option TypeNode → Bool
  | none, none => true
  | some a, some a' => a.same a'
  | _, _ => false
termination_by structural t => t

def sameTypes : List TypeNode → List TypeNode → Bool
  | [], [] => true
  | a :: l, a' :: l' => a.same a' && sameTypes l l'
  | _, _ => false
termination_by structural t => t

def sameTypes? : Option (List TypeNode) → Option (List TypeNode) → Bool
  | none, none => true
  | some l, some l' => sameTypes l l'
  | _, _ => false
termination_by structural t => t

def sameNamed? : Option NamedType → Option NamedType → Bool
  | none, none => true
  | some a, some a' => a.same a'
  | _, _ => false
termination_by structural t => t

def sameNameds : List NamedType → List NamedType → Bool
  | [], [] => true
  | a :: l, a' :: l' => a.same a' && sameNameds l l'
  | _, _ => false
termination_by structural t => t

def sameNameds? : Option (List NamedType) → Option (List NamedType) → Bool
  | none, none => true
  | some l, some l' => sameNameds l l'
  | _, _ => false
termination_by structural t => t

def TypeParameter.same : TypeParameter → TypeParameter → Bool
  | ⟨n, e, d, s⟩, ⟨n', e', d', s'⟩ => n == n' && sameNamed? e e' && sameNamed? d d' && s == s'
termination_by structural t => t

def sameTypeParameters : List TypeParameter → List TypeParameter → Bool
  | [], [] => true
  | a :: l, a' :: l' => a.same a' && sameTypeParameters l l'
  | _, _ => false
termination_by structural t => t

def sameTypeParameters? : Option (List TypeParameter) → Option (List TypeParameter) → Bool
  | none, none => true
  | some l, some l' => sameTypeParameters l l'
  | _, _ => false
termination_by structural t => t

def Parameter.same : Parameter → Parameter → Bool
  | ⟨k, n, t, i, d, f, s⟩, ⟨k', n', t', i', d', f', s'⟩ =>
    k == k' && n == n' && t.same t' && sameExpr? i i' && sameField? d d' && f == f' && s == s'
termination_by structural t => t

def sameParameters : List Parameter → List Parameter → Bool
  | [], [] => true
  | a :: l, a' :: l' => a.same a' && sameParameters l l'
  | _, _ => false
termination_by structural t => t

def Decorator.same : Decorator → Decorator → Bool
  | ⟨k, n, a, s⟩, ⟨k', n', a', s'⟩ => k == k' && n.same n' && sameExprs? a a' && s == s'
termination_by structural t => t

def sameDecorators : List Decorator → List Decorator → Bool
  | [], [] => true
  | a :: l, a' :: l' => a.same a' && sameDecorators l l'
  | _, _ => false
termination_by structural t => t

def sameDecorators? : Option (List Decorator) → Option (List Decorator) → Bool
  | none, none => true
  | some l, some l' => sameDecorators l l'
  | _, _ => false
termination_by structural t => t

def Expr.same : Expr → Expr → Bool
  | .identifier a, .identifier a' => a == a'
  | .float v s, .float v' s' => v == v' && s == s'
  | .integer v s, .integer v' s' => v == v' && s == s'
  | .string a, .string a' => a == a'
  | .template t p r e s, .template t' p' r' e' s' =>
    sameExpr? t t' && p == p' && r == r' && sameExprs e e' && s == s'
  | .regexp p f s, .regexp p' f' s' => p == p' && f == f' && s == s'
  | .array e s, .array e' s' => sameExprs e e' && s == s'
  | .object n v s, .object n' v' s' => n == n' && sameExprs v v' && s == s'
  | .assertion k e t s, .assertion k' e' t' s' =>
    k == k' && e.same e' && sameType? t t' && s == s'
  | .binary o l r s, .binary o' l' r' s' => o == o' && l.same l' && r.same r' && s == s'
  | .call c t a s, .call c' t' a' s' =>
    c.same c' && sameTypes? t t' && sameExprs a a' && s == s'
  | .class_ d, .class_ d' => d.same d'
  | .comma e s, .comma e' s' => sameExprs e e' && s == s'
  | .element o i s, .element o' i' s' => o.same o' && i.same i' && s == s'
  | .function d, .function d' => d.same d'
  | .instanceOf e t s, .instanceOf e' t' s' => e.same e' && t.same t' && s == s'
  | .new n t a s, .new n' t' a' s' => n == n' && sameTypes? t t' && sameExprs a a' && s == s'
  | .omitted s, .omitted s' => s == s'
  | .parenthesized e s, .parenthesized e' s' => e.same e' && s == s'
  | .property o n s, .property o' n' s' => o.same o' && n == n' && s == s'
  | .ternary c y n s, .ternary c' y' n' s' => c.same c' && y.same y' && n.same n' && s == s'
  | .postfixOp o e s, .postfixOp o' e' s' => o == o' && e.same e' && s == s'
  | .prefixOp o e s, .prefixOp o' e' s' => o == o' && e.same e' && s == s'
  | .word w s, .word w' s' => w == w' && s == s'
  | .compiled e t s, .compiled e' t' s' => e == e' && t == t' && s == s'
  | _, _ => false
termination_by structural t => t

def sameExpr? : Option Expr → Option Expr → Bool
  | none, none => true
  | some a, some a' => a.same a'
  | _, _ => false
termination_by structural t => t

def sameExprs : List Expr → List Expr → Bool
  | [], [] => true
  | a :: l, a' :: l' => a.same a' && sameExprs l l'
  | _, _ => false
termination_by structural t => t

def sameExprs? : Option (List Expr) → Option (List Expr) → Bool
  | none, none => true
  | some l, some l' => sameExprs l l'
  | _, _ => false
termination_by structural t => t

def Class.same : Class → Class → Bool
  | ⟨h, f, d, p, e, i, m, x⟩, ⟨h', f', d', p', e', i', m', x'⟩ =>
    h == h' && f == f' && sameDecorators? d d' && sameTypeParameters? p p' && sameNamed? e e' &&
      sameNameds? i i' && sameStmts m m' && sameIndex? x x'
termination_by structural t => t

def IndexSignature.same : IndexSignature → IndexSignature → Bool
  | ⟨k, v, f, s⟩, ⟨k', v', f', s'⟩ => k.same k' && v.same v' && f == f' && s == s'
termination_by structural t => t

def sameIndex? : Option IndexSignature → Option IndexSignature → Bool
  | none, none => true
  | some a, some a' => a.same a'
  | _, _ => false
termination_by structural t => t

def Function.same : Function → Function → Bool
  | ⟨h, m, d, p, g, b, a⟩, ⟨h', m', d', p', g', b', a'⟩ =>
    h == h' && m == m' && sameDecorators? d d' && sameTypeParameters? p p' && g.same g' &&
      sameStmt? b b' && a == a'
termination_by structural t => t

def Enum.same : Enum → Enum → Bool
  | ⟨h, d, v⟩, ⟨h', d', v'⟩ => h == h' && sameDecorators? d d' && sameEnumValues v v'
termination_by structural t => t

def EnumValue.same : EnumValue → EnumValue → Bool
  | ⟨h, i⟩, ⟨h', i'⟩ => h == h' && sameExpr? i i'
termination_by structural t => t

def sameEnumValues : List EnumValue → List EnumValue → Bool
  | [], [] => true
  | a :: l, a' :: l' => a.same a' && sameEnumValues l l'
  | _, _ => false
termination_by structural t => t

def Field.same : Field → Field → Bool
  | ⟨h, d, t, i, p⟩, ⟨h', d', t', i', p'⟩ =>
    h == h' && sameDecorators? d d' && sameType? t t' && sameExpr? i i' && p == p'
termination_by structural t => t

def sameField? : Option Field → Option Field → Bool
  | none, none => true
  | some a, some a' => a.same a'
  | _, _ => false
termination_by structural t => t

def Namespace.same : Namespace → Namespace → Bool
  | ⟨h, d, m⟩, ⟨h', d', m'⟩ => h == h' && sameDecorators? d d' && sameStmts m m'
termination_by structural t => t

def TypeAlias.same : TypeAlias → TypeAlias → Bool
  | ⟨h, d, p, t⟩, ⟨h', d', p', t'⟩ =>
    h == h' && sameDecorators? d d' && sameTypeParameters? p p' && t.same t'
termination_by structural t => t

def Variable.same : Variable → Variable → Bool
  | ⟨h, d, t, i⟩, ⟨h', d', t', i'⟩ =>
    h == h' && sameDecorators? d d' && sameType? t t' && sameExpr? i i'
termination_by structural t => t

def sameVariables : List Variable → List Variable → Bool
  | [], [] => true
  | a :: l, a' :: l' => a.same a' && sameVariables l l'
  | _, _ => false
termination_by structural t => t

def SwitchCase.same : SwitchCase → SwitchCase → Bool
  | ⟨l, b, s⟩, ⟨l', b', s'⟩ => sameExpr? l l' && sameStmts b b' && s == s'
termination_by structural t => t

def sameCases : List SwitchCase → List SwitchCase → Bool
  | [], [] => true
  | a :: l, a' :: l' => a.same a' && sameCases l l'
  | _, _ => false
termination_by structural t => t

def Stmt.same : Stmt → Stmt → Bool
  | .block b s, .block b' s' => sameStmts b b' && s == s'
  | .break_ l s, .break_ l' s' => l == l' && s == s'
  | .continue_ l s, .continue_ l' s' => l == l' && s == s'
  | .do_ b c s, .do_ b' c' s' => b.same b' && c.same c' && s == s'
  | .empty s, .empty s' => s == s'
  | .export_ e, .export_ e' => e == e'
  | .exportDefault d s, .exportDefault d' s' => d.same d' && s == s'
  | .exportImport n e s, .exportImport n' e' s' => n == n' && e == e' && s == s'
  | .expression e, .expression e' => e.same e'
  | .for_ i c p b s, .for_ i' c' p' b' s' =>
    sameStmt? i i' && sameExpr? c c' && sameExpr? p p' && b.same b' && s == s'
  | .forOf v i b s, .forOf v' i' b' s' => v.same v' && i.same i' && b.same b' && s == s'
  | .if_ c y n s, .if_ c' y' n' s' => c.same c' && y.same y' && sameStmt? n n' && s == s'
  | .import_ i, .import_ i' => i == i'
  | .return_ v s, .return_ v' s' => sameExpr? v v' && s == s'
  | .switch c k s, .switch c' k' s' => c.same c' && sameCases k k' && s == s'
  | .throw v s, .throw v' s' => v.same v' && s == s'
  | .try_ b v c f s, .try_ b' v' c' f' s' =>
    sameStmts b b' && v == v' && sameStmts? c c' && sameStmts? f f' && s == s'
  | .variable_ d v s, .variable_ d' v' s' => sameDecorators? d d' && sameVariables v v' && s == s'
  | .void v s, .void v' s' => v.same v' && s == s'
  | .while_ c b s, .while_ c' b' s' => c.same c' && b.same b' && s == s'
  | .module_ n f s, .module_ n' f' s' => n == n' && f == f' && s == s'
  | .class_ d, .class_ d' => d.same d'
  | .enum d, .enum d' => d.same d'
  | .field d, .field d' => d.same d'
  | .function d, .function d' => d.same d'
  | .namespace_ d, .namespace_ d' => d.same d'
  | .typeAlias d, .typeAlias d' => d.same d'
  | _, _ => false
termination_by structural t => t

def sameStmt? : Option Stmt → Option Stmt → Bool
  | none, none => true
  | some a, some a' => a.same a'
  | _, _ => false
termination_by structural t => t

def sameStmts : List Stmt → List Stmt → Bool
  | [], [] => true
  | a :: l, a' :: l' => a.same a' && sameStmts l l'
  | _, _ => false
termination_by structural t => t

def sameStmts? : Option (List Stmt) → Option (List Stmt) → Bool
  | none, none => true
  | some l, some l' => sameStmts l l'
  | _, _ => false
termination_by structural t => t

end

instance : BEq TypeNode := ⟨TypeNode.same⟩

instance : BEq Expr := ⟨Expr.same⟩

instance : BEq Stmt := ⟨Stmt.same⟩

end TypedScript.Syntax
