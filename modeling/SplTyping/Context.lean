import SplTyping.Substitution
import SplTyping.Table

namespace SplTyping

/-!
# Typing contexts

A context gives types to the variables and signatures to the functions in
scope. The two kinds of names do not meet: a variable and a function may share
one.
-/

namespace Signature

/-- A signature narrowed by a substitution. -/
def narrow (signature : Signature) (substitution : Substitution) : Signature where
  params := signature.params.map substitution.apply
  result := substitution.apply signature.result

/-- Narrowing by a concatenation is narrowing by its parts in turn. -/
theorem narrow_append
    (signature : Signature)
    (first second : Substitution) :
    signature.narrow (first ++ second) =
      (signature.narrow first).narrow second := by
  simp [narrow, Substitution.apply_append]

end Signature

/-- What the names in scope stand for. -/
structure Context where
  vars : Table String Ty
  funs : Table String Signature
  deriving Inhabited, DecidableEq

namespace Context

/-- The context in which no name is bound. -/
def empty : Context where
  vars := .empty
  funs := .empty

/-- The context with one variable bound. -/
def bindVar (context : Context) (name : String) (ty : Ty) : Context where
  vars := context.vars.insert name ty
  funs := context.funs

/-- The context with one function bound. -/
def bindFun
    (context : Context)
    (name : String)
    (signature : Signature) :
    Context where
  vars := context.vars
  funs := context.funs.insert name signature

/-- The context with every type in it narrowed. -/
def narrow (context : Context) (substitution : Substitution) : Context where
  vars := context.vars.map substitution.apply
  funs := context.funs.map fun signature => signature.narrow substitution

/-- Narrowing by a concatenation is narrowing by its parts in turn. -/
theorem narrow_append
    (context : Context)
    (first second : Substitution) :
    context.narrow (first ++ second) =
      (context.narrow first).narrow second := by
  simp [narrow, Table.map, Substitution.apply_append, Signature.narrow_append]

/-- Narrowing binds the functions that were bound, and no others. -/
theorem narrow_contains
    (context : Context)
    (substitution : Substitution)
    (name : String) :
    (context.narrow substitution).funs.contains name =
      context.funs.contains name := by
  rw [Table.contains, Table.contains, narrow, Table.get?_map,
    Option.isSome_map]

/-- Narrowing binds the variables that were bound, and no others. -/
theorem narrow_contains_var
    (context : Context)
    (substitution : Substitution)
    (name : String) :
    (context.narrow substitution).vars.contains name =
      context.vars.contains name := by
  rw [Table.contains, Table.contains, narrow, Table.get?_map,
    Option.isSome_map]

/-- Narrowing a bound variable narrows its type. -/
theorem narrow_bindVar
    (context : Context)
    (name : String)
    (ty : Ty)
    (substitution : Substitution) :
    (context.bindVar name ty).narrow substitution =
      (context.narrow substitution).bindVar name (substitution.apply ty) := by
  simp [narrow, bindVar, Table.map_insert]

/-- Narrowing a bound function narrows its signature. -/
theorem narrow_bindFun
    (context : Context)
    (name : String)
    (signature : Signature)
    (substitution : Substitution) :
    (context.bindFun name signature).narrow substitution =
      (context.narrow substitution).bindFun name
        (signature.narrow substitution) := by
  simp [narrow, bindFun, Table.map_insert]

/-- Whether two contexts give the same meaning to every name. -/
def sameAs (first second : Context) : Bool :=
  first.vars.sameAs second.vars && first.funs.sameAs second.funs

end Context

end SplTyping
