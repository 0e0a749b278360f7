import Mathlib.Data.List.Basic
import WorkflowAnalysis.Syntax.Shape

/-! The forms that single recognizers accept, as rules. Each recognizer is shown to answer exactly where
its rule applies, so that what is extracted can be told by the rules. -/
namespace WorkflowAnalysis.Syntax.Node

/-- A callee stands for a name: as the name itself, as a member of that name, or as such a member in
the second place of a pair. -/
inductive Targets : Node → String → Prop
  | plain (name : String) : Targets (identifier name) name
  | member (subject : Node) (name : String) : Targets (member subject name) name
  | pair (first subject : Node) (name : String) : Targets (sequence [first, .member subject name]) name

theorem targetName?_eq_some {n : Node} {name : String} :
    n.targetName? = some name ↔ n.Targets name := by
  constructor
  · intro h
    unfold targetName? at h
    split at h <;> cases h
    · exact .plain name
    · exact .member _ name
    · exact .pair _ _ name
  · intro h
    cases h <;> rfl

/-- A callee is written with a name: alone, or behind some object. -/
inductive WrittenAs : Node → String → Prop
  | plain (name : String) : WrittenAs (identifier name) name
  | member (subject : Node) (name : String) : WrittenAs (member subject name) name

theorem plainName?_eq_some {n : Node} {name : String} :
    n.plainName? = some name ↔ n.WrittenAs name := by
  constructor
  · intro h
    unfold plainName? at h
    split at h <;> cases h
    · exact .plain name
    · exact .member _ name
  · intro h
    cases h <;> rfl

/-- An expression is a name, under any number of type marks. -/
inductive Named (name : String) : Node → Prop
  | plain : Named name (identifier name)
  | typed {inner : Node} (before after : List Node) (h : Named name inner) :
      Named name (typed before inner after)

theorem named_of_isNamed {name : String} (n : Node) (h : n.isNamed name = true) : n.Named name := by
  cases n with
  | identifier spelling =>
    obtain rfl : spelling = name := eq_of_beq h
    exact .plain
  | typed before inner after => exact .typed before after (named_of_isNamed inner h)
  | _ => cases h

theorem isNamed_iff {name : String} {n : Node} : n.isNamed name = true ↔ n.Named name := by
  constructor
  · exact named_of_isNamed n
  · intro h
    induction h with
    | plain => exact beq_self_eq_true name
    | typed before after _ ih => exact ih

/-- An expression reads a property of an object: by its name, or by a text in brackets. -/
inductive Reads : Node → Node → String → Prop
  | member (object : Node) (property : String) : Reads (member object property) object property
  | quoted (object : Node) (property : String) :
      Reads (index object (string property)) object property
  | template (object : Node) (property : String) (parts : List Node) :
      Reads (index object (template (some property) parts)) object property

theorem memberAccess?_eq_some {n object : Node} {property : String} :
    n.memberAccess? = some (object, property) ↔ n.Reads object property := by
  constructor
  · intro h
    unfold memberAccess? at h
    split at h <;> cases h
    · exact .member object property
    · exact .quoted object property
    · exact .template object property _
  · intro h
    cases h <;> rfl

/-- An expression stands for a name: as the name, or as what is read from it by an optional access. -/
inductive StandsFor (name : String) : Node → Prop
  | named {n : Node} (named : Named name n) : StandsFor name n
  | optional {inner object : Node} (owner : inner.owner? = some object) (named : Named name object) :
      StandsFor name (chain inner)

theorem isRootedAt_iff {name : String} {n : Node} : n.isRootedAt name = true ↔ n.StandsFor name := by
  constructor
  · intro h
    unfold isRootedAt at h
    split at h
    · next inner =>
      cases ho : inner.owner? with
      | none => simp [ho] at h
      | some object => exact .optional ho (isNamed_iff.mp (by simpa [ho] using h))
    · exact .named (isNamed_iff.mp h)
  · rintro (hnamed | ⟨howner, hnamed⟩)
    · have h := isNamed_iff.mpr hnamed
      cases hnamed with
      | plain => exact h
      | typed before after _ => exact h
    · simp [isRootedAt, howner, isNamed_iff.mpr hnamed]

/-- An expression reads a property of a name, optionally or not and under any number of type marks. -/
inductive MemberOfNamed (object property : String) : Node → Prop
  | plain {n subject : Node} (reads : n.Reads subject property) (stands : subject.StandsFor object) :
      MemberOfNamed object property n
  | optional {n subject : Node} (reads : n.Reads subject property)
      (stands : subject.StandsFor object) : MemberOfNamed object property (chain n)
  | typed {inner : Node} (before after : List Node) (h : MemberOfNamed object property inner) :
      MemberOfNamed object property (typed before inner after)

theorem memberOfNamed_of_untyped {object property : String} (n : Node)
    (h : n.untyped.MemberOfNamed object property) : n.MemberOfNamed object property := by
  cases n with
  | typed before inner after => exact .typed before after (memberOfNamed_of_untyped inner h)
  | _ => exact h

theorem isMemberOf_iff {object property : String} {n : Node} :
    n.isMemberOf object property = true ↔ n.MemberOfNamed object property := by
  constructor
  · intro h
    have hreads {n : Node} {access : Node × String} (haccess : n.memberAccess? = some access)
        (h : (access.1.isRootedAt object && access.2 == property) = true) :
        n.Reads access.1 property ∧ access.1.StandsFor object := by
      obtain ⟨hrooted, hname⟩ := Bool.and_eq_true_iff.mp h
      rw [← eq_of_beq hname]
      exact ⟨memberAccess?_eq_some.mp haccess, isRootedAt_iff.mp hrooted⟩
    apply memberOfNamed_of_untyped
    unfold isMemberOf at h
    generalize n.untyped = n at h ⊢
    split at h
    · next inner =>
      cases haccess : inner.memberAccess? with
      | none => simp [haccess] at h
      | some access =>
        obtain ⟨hread, hstands⟩ := hreads haccess (by simpa [haccess] using h)
        exact .optional hread hstands
    · cases haccess : n.memberAccess? with
      | none => simp [haccess] at h
      | some access =>
        obtain ⟨hread, hstands⟩ := hreads haccess (by simpa [haccess] using h)
        exact .plain hread hstands
  · intro h
    induction h with
    | plain reads stands =>
      have hstands := isRootedAt_iff.mpr stands
      cases reads <;> simp [isMemberOf, untyped, memberAccess?, hstands]
    | optional reads stands =>
      simp [isMemberOf, untyped, memberAccess?_eq_some.mpr reads, isRootedAt_iff.mpr stands]
    | typed before after _ ih => exact ih

/-- An expression is an object literal, under any number of type marks. -/
inductive IsLiteral (members : List Node) : Node → Prop
  | plain : IsLiteral members (object members)
  | typed {inner : Node} (before after : List Node) (h : IsLiteral members inner) :
      IsLiteral members (typed before inner after)

theorem isLiteral_of_untyped {members : List Node} (n : Node) (h : n.untyped = object members) :
    n.IsLiteral members := by
  cases n with
  | object found =>
    cases h
    exact .plain
  | typed before inner after => exact .typed before after (isLiteral_of_untyped inner h)
  | _ => cases h

theorem untyped_eq_object {n : Node} {members : List Node} :
    n.untyped = object members ↔ n.IsLiteral members := by
  constructor
  · exact isLiteral_of_untyped n
  · intro h
    induction h with
    | plain => rfl
    | typed before after _ ih => exact ih

theorem string?_eq_some {n : Node} {value : String} : n.string? = some value ↔ n = string value := by
  constructor
  · intro h
    unfold string? at h
    split at h <;> cases h
    rfl
  · rintro rfl
    rfl

theorem identifier?_eq_some {n : Node} {name : String} :
    n.identifier? = some name ↔ n = identifier name := by
  constructor
  · intro h
    unfold identifier? at h
    split at h <;> cases h
    rfl
  · rintro rfl
    rfl

theorem members?_eq_some {n : Node} {members : List Node} :
    n.members? = some members ↔ n = object members := by
  constructor
  · intro h
    unfold members? at h
    split at h <;> cases h
    rfl
  · rintro rfl
    rfl

theorem argument?_eq_some {arguments : List Node} {place : Nat} {value : Node} :
    argument? arguments place = some value ↔
      arguments[place]? = some value ∧ ∀ inner, value ≠ spread inner := by
  unfold argument?
  split
  · next inner heq =>
    simp only [reduceCtorEq, heq, Option.some.injEq, false_iff]
    rintro ⟨rfl, h⟩
    exact h inner rfl
  · next heq => simp [heq]
  · next other hspread heq =>
    simp only [heq, Option.some.injEq, iff_self_and]
    rintro rfl inner rfl
    exact hspread inner rfl

/-- A property of an object pattern takes a name out of the object: the one that it binds, or else its
key. What takes the rest takes no name. -/
inductive Destructures : Node → String → Prop
  | bound (key : Option String) (parts : List Node) (name : String) :
      Destructures (patternProperty key parts (binding name)) name
  | keyed {target : Node} (name : String) (parts : List Node)
      (h : ∀ bound, target ≠ binding bound) :
      Destructures (patternProperty (some name) parts target) name

theorem destructuredName?_eq_some {n : Node} {name : String} :
    n.destructuredName? = some name ↔ n.Destructures name := by
  constructor
  · intro h
    unfold destructuredName? at h
    split at h
    · cases h
      exact .bound _ _ name
    · next key parts target hbound =>
      subst h
      exact .keyed name parts hbound
    · cases h
  · intro h
    cases h with
    | bound key parts => rfl
    | keyed _ parts hbound =>
      unfold destructuredName?
      split
      · next heq =>
        cases heq
        exact absurd rfl (hbound _)
      · next heq =>
        cases heq
        rfl
      · next hother => exact absurd rfl (hother _ _ _)

def IsFirstProperty (members : List Node) (key : String) (value : Node) : Prop :=
  ∃ before parts after, members = before ++ property (some key) parts value :: after ∧
    ∀ parts value, property (some key) parts value ∉ before

def HasProperty (members : List Node) (key : String) : Prop :=
  ∃ parts value, property (some key) parts value ∈ members

theorem property?_eq_none {members : List Node} {key : String} :
    property? members key = none ↔ ¬ HasProperty members key := by
  unfold property?
  rw [List.findSome?_eq_none_iff]
  constructor
  · rintro h ⟨parts, value, hm⟩
    simpa using h _ hm
  · intro h n hn
    split
    · next name parts value =>
      rw [if_neg]
      rintro rfl
      exact h ⟨parts, value, hn⟩
    · rfl

theorem property?_eq_some {members : List Node} {key : String} {value : Node} :
    property? members key = some value ↔ IsFirstProperty members key value := by
  unfold property?
  rw [List.findSome?_eq_some_iff]
  constructor
  · rintro ⟨before, n, after, rfl, hn, hbefore⟩
    split at hn
    · next name parts value' =>
      split at hn
      · next hname =>
        cases hn
        subst hname
        refine ⟨before, parts, after, rfl, ?_⟩
        intro parts' value' hm
        simpa using hbefore _ hm
      · cases hn
    · cases hn
  · rintro ⟨before, parts, after, rfl, hbefore⟩
    refine ⟨before, _, after, rfl, by simp, ?_⟩
    intro n hn
    split
    · next name parts value =>
      rw [if_neg]
      rintro rfl
      exact hbefore parts value hn
    · rfl

theorem IsFirstProperty.unique {members : List Node} {key : String} {value other : Node}
    (h : IsFirstProperty members key value) (h' : IsFirstProperty members key other) :
    value = other :=
  Option.some.inj ((property?_eq_some.mpr h).symm.trans (property?_eq_some.mpr h'))

theorem isSome_property? {members : List Node} {key : String} :
    (property? members key).isSome = true ↔ HasProperty members key := by
  rw [← not_iff_not, ← property?_eq_none]
  simp

theorem variables?_eq_some {n : Node} {kind : VariableKind} {declarators : List Node} :
    n.variables? = some (kind, declarators) ↔
      n = variableDeclaration kind declarators ∨
        n = exportDeclaration (variableDeclaration kind declarators) := by
  constructor
  · intro h
    unfold variables? at h
    split at h <;> cases h
    · exact .inl rfl
    · exact .inr rfl
  · rintro (rfl | rfl) <;> rfl

end WorkflowAnalysis.Syntax.Node
