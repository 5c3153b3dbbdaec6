import Lox.Proofs.Session.Clean
import Lox.Proofs.Session.WellFormed
import Lox.Proofs.Text.Spelling

/-!
# Where the code of a session comes from

Every node of the code that a session runs, or that its functions keep for later, was read from a text: it
is well formed, and its tokens are tokens of a text.
-/

namespace Lox

namespace Node

/-- The tokens of a node that do not belong to a smaller one. -/
@[simp] def tokens : Node → List Token
  | expression (.unary operator _) | expression (.binary _ operator _)
  | expression (.logical _ operator _) => [operator.token]
  | expression (.call _ paren _) => [paren.token]
  | expression (.name target) | expression (.assign target _) | expression (.this target) =>
    [target.token]
  | expression (.get _ property) | expression (.set _ property _) => [property.token]
  | expression (.super keyword called) => [keyword.token, called.token]
  | statement (.var name _) | parameter name => [name]
  | statement (.class name _ _) => [name.token]
  | statement (.return keyword _) => [keyword]
  | function f | method f => [f.name]
  | superclass _ mention => [mention.token]
  | _ => []

/-- The node was read from some text. -/
structure Read (node : Node) : Prop where
  wellFormed : node.WellFormed
  scanned : ∀ t ∈ node.tokens, ∃ source, t ∈ (scan source).tokens

/-! ## Parts of matched trees -/

/-- The matching relates the node to some other one. -/
@[simp] def IsMatched (M : Matching) : Node → Prop
  | program body => ∃ body', List.Forall₂ (Stmt.Matched M) body body'
  | statement s => ∃ s', s.Matched M s'
  | expression e => ∃ e', e.Matched M e'
  | function f | method f => ∃ f', f.Matched M f'
  | parameter name => ∃ t', M.tokens name t'
  | superclass _ mention => ∃ o', M.occurrences mention o'

variable {M : Matching}

theorem exists_of_optionRel {α β : Type} {R : α → β → Prop} {a : Option α} {b : Option β}
    (related : Option.Rel R a b) : ∀ x ∈ a, ∃ y, R x y := by
  cases related with
  | none => simp
  | some related => simpa using ⟨_, related⟩

theorem IsMatched.tokens {node : Node} (matched : node.IsMatched M) :
    ∀ t ∈ node.tokens, ∃ t', M.tokens t t' := by
  cases node with
  | program => simp
  | statement s =>
    obtain ⟨s', matched⟩ := matched
    cases matched with
    | var name _ | «return» name _ => simpa using ⟨_, name⟩
    | «class» name _ _ => simpa using ⟨_, M.token _ _ name⟩
    | _ => simp
  | expression e =>
    obtain ⟨e', matched⟩ := matched
    cases matched with
    | literal | grouping => simp
    | name target | assign target _ | this target => simpa using ⟨_, M.token _ _ target⟩
    | unary operator _ | binary _ operator _ | logical _ operator _ | call _ operator _
    | get _ operator | set _ operator _ => simpa using ⟨_, M.token _ _ operator⟩
    | super keyword called => simpa using ⟨⟨_, M.token _ _ keyword⟩, _, M.token _ _ called⟩
  | function f | method f =>
    obtain ⟨f', matched⟩ := matched
    simpa using ⟨_, matched.name⟩
  | parameter name => simpa using matched
  | superclass className mention =>
    obtain ⟨o', matched⟩ := matched
    simpa using ⟨_, M.token _ _ matched⟩

theorem IsMatched.child {node child : Node} (matched : node.IsMatched M) (part : child ∈ node.children) :
    child.IsMatched M := by
  cases node with
  | program body =>
    obtain ⟨body', matched⟩ := matched
    obtain ⟨s, member, rfl⟩ := List.mem_map.1 part
    exact exists_of_forall₂ matched s member
  | statement s =>
    obtain ⟨s', matched⟩ := matched
    -- A list of parts is matched part by part, and so is an optional part.
    cases matched with
    | expression value | print value =>
      obtain rfl := List.mem_singleton.1 part
      exact ⟨_, value⟩
    | var _ initializer | «return» _ initializer =>
      obtain ⟨e, member, rfl⟩ := List.mem_map.1 part
      exact exists_of_optionRel initializer e (by simpa using member)
    | block body =>
      obtain ⟨s, member, rfl⟩ := List.mem_map.1 part
      exact exists_of_forall₂ body s member
    | ite condition thenBranch elseBranch =>
      rw [children, List.mem_cons, List.mem_cons, List.mem_map] at part
      obtain rfl | rfl | ⟨s, member, rfl⟩ := part
      · exact ⟨_, condition⟩
      · exact ⟨_, thenBranch⟩
      · exact exists_of_optionRel elseBranch s (by simpa using member)
    | «while» condition body =>
      rw [children, List.mem_pair] at part
      obtain rfl | rfl := part
      · exact ⟨_, condition⟩
      · exact ⟨_, body⟩
    | function f =>
      obtain rfl := List.mem_singleton.1 part
      exact ⟨_, f⟩
    | «class» _ superclass methods =>
      rw [children, List.mem_append, List.mem_map, List.mem_map] at part
      obtain ⟨o, member, rfl⟩ | ⟨f, member, rfl⟩ := part
      · exact exists_of_optionRel superclass o (by simpa using member)
      · exact exists_of_forall₂ methods f member
  | expression e =>
    obtain ⟨e', matched⟩ := matched
    cases matched with
    | literal | name | this | super => simp at part
    | grouping inner | assign _ inner | unary _ inner | get inner _ =>
      obtain rfl := List.mem_singleton.1 part
      exact ⟨_, inner⟩
    | binary left _ right | logical left _ right | set right _ left =>
      rw [children, List.mem_pair] at part
      obtain rfl | rfl := part
      · exact ⟨_, left⟩
      · exact ⟨_, right⟩
    | call callee _ arguments =>
      rw [children, List.mem_cons, List.mem_map] at part
      obtain rfl | ⟨e, member, rfl⟩ := part
      · exact ⟨_, callee⟩
      · exact exists_of_forall₂ arguments e member
  | function f | method f =>
    obtain ⟨f', matched⟩ := matched
    rw [children, List.mem_append, List.mem_map, List.mem_map] at part
    obtain ⟨name, member, rfl⟩ | ⟨s, member, rfl⟩ := part
    · exact exists_of_forall₂ matched.parameters name member
    · exact exists_of_forall₂ matched.body s member
  | parameter | superclass => simp at part

theorem IsMatched.throughout {node : Node} (matched : node.IsMatched M) :
    node.Throughout (IsMatched M) := by
  intro part below
  induction below with
  | refl => exact matched
  | tail _ child inductionHypothesis => exact inductionHypothesis.child child

end Node

/-! ## Sessions -/

/-- All nodes of an accepted program were read from its text. -/
theorem Clean.read {limits : Limits} {start : Nat} {source : String} {program : Program}
    (clean : Clean limits start source program) :
    ∀ s ∈ program, (Node.statement s).Throughout Node.Read := by
  intro s member part below
  have sound : (Node.statement s).Sound := parse?_sound clean.parsed s member
  -- A program matches itself by a matching that relates tokens of the text only.
  have matched : (Node.statement s).IsMatched
      (.moved 0 (scan source).tokens (OccursIn source start)) :=
    exists_of_forall₂ clean.own s member
  refine ⟨sound.throughout part below, fun t own => ⟨source, ?_⟩⟩
  obtain ⟨t', there, -⟩ := (matched.throughout part below).tokens t own
  exact there

/-- All code that the functions of a session keep was read from texts. -/
theorem Session.after_read (clock : Nat → Float) (steps : List Step) :
    (after clock steps).machine.heap.CodeOf Node.Read :=
  (codeOf_invariant Clean.read).after (initial_codeOf _ clock) steps

namespace Node.Read

variable {node : Node}

theorem spelled (read : node.Read) : ∀ t ∈ node.tokens, t.Spelled := by
  intro t own
  obtain ⟨source, there⟩ := read.scanned t own
  exact scan_spelled source t there

/-- What is read from a text defines ordinary names only. -/
theorem defines (read : node.Read) {name : String} (defines : node.Defines name) : IsOrdinary name := by
  have wellFormed := read.wellFormed
  have spelled := read.spelled
  cases defines with
  | assign | var | function | «class» => exact (spelled _ List.mem_cons_self).identifier wellFormed

end Node.Read

end Lox
