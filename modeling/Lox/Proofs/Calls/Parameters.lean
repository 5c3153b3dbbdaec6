import Lox.Evaluation.Call
import Lox.Proofs.Returns.Permitted
import Mathlib.Data.List.Nodup

/-!
# Parameters

The resolver rejects a parameter that has the name of an earlier one. So the table that is made for
a call holds each parameter with its own argument, in their order, and nothing else.
-/

namespace Lox

/-! ## Names of parameters -/

/-- Where no declaration is a fault, the names differ, and none of them is in the scope before. -/
theorem Place.parameters_distinct {p : Place} {level : Level} {outer : List Level}
    (inside : p.levels = level :: outer) {parameters : List Token}
    (faultless : ∀ v ∈ p.parameterVisits parameters, v.faults = []) :
    (parameters.map Token.lexeme).Nodup ∧
      ∀ t ∈ parameters, level.scope.contains t.lexeme = false := by
  induction parameters generalizing p level with
  | nil => exact ⟨.nil, by simp⟩
  | cons name rest inductionHypothesis =>
    obtain ⟨first, others⟩ := List.forall_mem_cons.1 faultless
    have absent : level.scope.contains name.lexeme = false := by
      simpa [Visit.faults, inside] using first
    have declared : (p.declareComplete name).levels = ⟨(level.scope.insert name.lexeme false).insert
        name.lexeme true, level.origin⟩ :: outer := by
      simp [declareComplete, mark, inside]
    -- The names that follow are not in the scope that has this one.
    obtain ⟨distinct, new⟩ := inductionHypothesis declared others
    simp only [Table.contains_insert, Bool.or_eq_false_iff, decide_eq_false_iff_not] at new
    refine ⟨List.nodup_cons.2 ⟨fun again => ?_, distinct⟩, ?_⟩
    · obtain ⟨t, member, same⟩ := List.mem_map.1 again
      exact (new t member).1 same.symm
    · exact List.forall_mem_cons.2 ⟨absent, fun t member => (new t member).2.2⟩

/-- The parameters of a function that the resolver permits have different names. -/
theorem Function.Permitted.distinct {f : Function} {kind : FunctionContext}
    (permitted : f.Permitted kind) : (f.parameters.map Token.lexeme).Nodup := by
  obtain ⟨p, -, passed⟩ := permitted
  rw [Function.visits_eq] at passed
  refine (Place.parameters_distinct (p := p.enter .empty (.function f)) rfl fun v visited => ?_).1
  exact (passed v (List.mem_append_left _ visited)).faultless

/-! ## Tables of parameters -/

namespace Table

variable {α : Type}

theorem insertInto_new {name : String} (value : α) {entries : List (String × α)}
    (new : name ∉ entries.map Prod.fst) :
    insertInto name value entries = entries ++ [(name, value)] := by
  induction entries with
  | nil => rfl
  | cons entry rest inductionHypothesis =>
    obtain ⟨key, old⟩ := entry
    obtain ⟨other, newInRest⟩ : name ≠ key ∧ name ∉ rest.map Prod.fst := by simpa using new
    rw [insertInto, if_neg other.symm, inductionHypothesis newInRest, List.cons_append]

/-- Pairs with new and different names come after what the table holds. -/
theorem insertAll_new (t : Table α) {pairs : List (String × α)}
    (distinct : ((t.entries ++ pairs).map Prod.fst).Nodup) :
    (t.insertAll pairs).entries = t.entries ++ pairs := by
  induction pairs generalizing t with
  | nil => exact (List.append_nil _).symm
  | cons pair rest inductionHypothesis =>
    obtain ⟨name, value⟩ := pair
    have new : name ∉ t.entries.map Prod.fst := by
      rw [List.map_append, List.nodup_append] at distinct
      exact fun old => distinct.2.2 name old name (by simp) rfl
    have inserted : (t.insert name value).entries = t.entries ++ [(name, value)] :=
      insertInto_new value new
    have again := inductionHypothesis (t.insert name value)
    rw [inserted, List.append_assoc, List.singleton_append] at again
    exact again distinct

theorem findIn_of_mem {name : String} {value : α} {entries : List (String × α)}
    (distinct : (entries.map Prod.fst).Nodup) (member : (name, value) ∈ entries) :
    findIn name entries = some value := by
  induction entries with
  | nil => cases member
  | cons entry rest inductionHypothesis =>
    obtain ⟨key, other⟩ := entry
    obtain ⟨new, distinct⟩ := List.nodup_cons.1 distinct
    rcases List.mem_cons.1 member with same | member
    · cases same
      exact if_pos rfl
    · rw [findIn, if_neg, inductionHypothesis distinct member]
      rintro rfl
      exact new (List.mem_map.2 ⟨_, member, rfl⟩)

end Table

/-- The table holds each parameter with the argument in its place, in their order, and no more. -/
structure Table.Binds (t : Table Value) (parameters : List Token) (arguments : List Value) :
    Prop where
  entries : t.entries = (parameters.map Token.lexeme).zip arguments
  each : ∀ (i : Nat) parameter v, parameters[i]? = some parameter → arguments[i]? = some v →
    t.find? parameter.lexeme = some v

theorem Run.parameterTable_binds {parameters : List Token} {arguments : List Value}
    (distinct : (parameters.map Token.lexeme).Nodup)
    (arity : arguments.length = parameters.length) :
    (parameterTable parameters arguments).Binds parameters arguments := by
  have names : ((parameters.map Token.lexeme).zip arguments).map Prod.fst =
      parameters.map Token.lexeme := List.map_fst_zip (by simp [arity])
  rw [← names] at distinct
  have entries : (parameterTable parameters arguments).entries =
      (parameters.map Token.lexeme).zip arguments := Table.insertAll_new .empty distinct
  refine ⟨entries, fun i parameter v here there => ?_⟩
  rw [Table.find?, entries]
  refine Table.findIn_of_mem distinct (List.mem_of_getElem? (i := i) ?_)
  simp [List.getElem?_zip_eq_some, here, there]

end Lox
