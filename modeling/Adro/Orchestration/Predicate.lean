import Adro.Orchestration.Model

/-!
# Edge and gate predicates

A bounded data AST: `validatePredicate` checks depth, vocabulary and operand
shapes and names the path of the first offence, `evaluatePredicate` evaluates
a well-formed predicate against the fields of a result.
-/

namespace Adro.Orchestration

open Adro.Go

mutual
def validatePredicate : Predicate → Nat → String → Except Err Unit
  | .mk kind field op value children, depth, path =>
    if depth > 8 then .error (errorNew (path ++ ".depth_exceeded"))
    else if blank kind then .ok ()
    else if ["field_eq", "number_cmp", "contains", "exists"].contains kind then do
      ensure (!blank field) (errorNew (path ++ ".field.required"))
      ensure (kind != "contains" || value.str?.isSome)
        (errorNew (path ++ ".value.string_required"))
      ensure (kind != "number_cmp" || ["eq", "ne", "lt", "lte", "gt", "gte"].contains op)
        (errorNew (path ++ ".op.invalid"))
      ensure (kind != "number_cmp" || value.number.isSome)
        (errorNew (path ++ ".value.number_required"))
    else if ["all", "any", "not"].contains kind then do
      ensure (!children.isEmpty) (errorNew (path ++ ".children.required"))
      ensure (kind != "not" || children.length == 1)
        (errorNew (path ++ ".children.one_required"))
      ensure (children.length ≤ 32) (errorNew (path ++ ".children.too_many"))
      validateChildren children 0 depth path
    else .error (errorNew (path ++ ".kind.invalid"))
def validateChildren : List Predicate → Nat → Nat → String → Except Err Unit
  | [], _, _, _ => .ok ()
  | c :: cs, i, depth, path => do
    validatePredicate c (depth + 1) (path ++ ".children[" ++ toString i ++ "]")
    validateChildren cs (i + 1) depth path
end

def compareNumbers (op : String) (a b : F64) : Bool :=
  match op with
  | "eq" => a.eq b
  | "ne" => !a.eq b
  | "lt" => a.lt b
  | "lte" => a.lt b || a.eq b
  | "gt" => b.lt a
  | "gte" => b.lt a || a.eq b
  | _ => false

mutual
def evalPredicate : Predicate → GoMap Value → Bool
  | .mk kind field op value children, f =>
    match kind with
    | "all" => evalAll children f
    | "any" => evalAny children f
    | "not" => !evalFirst children f
    | "exists" => f.contains field
    | _ =>
      match f[field]? with
      | none => false
      | some v =>
        match kind with
        | "contains" =>
          match v.str?, value.str? with
          | some s, some needle => containsText s needle
          | _, _ => false
        | "field_eq" => v.deepEqual value
        | "number_cmp" =>
          match v.number, value.number with
          | some a, some b => compareNumbers op a b
          | _, _ => false
        | _ => false
def evalAll : List Predicate → GoMap Value → Bool
  | [], _ => true
  | c :: cs, f => evalPredicate c f && evalAll cs f
def evalAny : List Predicate → GoMap Value → Bool
  | [], _ => false
  | c :: cs, f => evalPredicate c f || evalAny cs f
-- A validated `not` has exactly one child.
def evalFirst : List Predicate → GoMap Value → Bool
  | [], _ => false
  | c :: _, f => evalPredicate c f
end

def evaluatePredicate (p : Predicate) (fields : GoMap Value) : Except Err Bool := do
  validatePredicate p 0 "predicate"
  if blank p.kind then pure true else pure (evalPredicate p fields)

end Adro.Orchestration
