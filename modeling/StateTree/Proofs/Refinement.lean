import StateTree.Compile
import StateTree.Proofs.Compile.Layout

/-
  Chains of refinements. A declaration is given defaults and options and is made required, in any
  order and any number of times; while it is required and has no default, a default is all that it
  can be given. Main statement: what comes out depends on the chain only through the last default,
  the options in their order, and whether it was made required at all, and it can be compiled
  unless it is required and no default was ever given (`refined`).
-/

namespace StateTree

inductive Refinement
  | defaultsTo (value : Value)
  | withOptions (options : Options)
  | require

namespace Refinement

def default? : Refinement → Option Value
  | .defaultsTo value => some value
  | _ => none

def options? : Refinement → Option Options
  | .withOptions options => some options
  | _ => none

end Refinement

namespace Required

/-- The declaration so far, be it ready or not. -/
def declaration : Required → Declaration
  | .ready d => d
  | .pending template => template

end Required

/-- One refinement that succeeds. What is pending only takes a default. -/
inductive Refines : Required → Refinement → Required → Prop
  | defaultsTo (r : Required) (value : Value) :
      Refines r (.defaultsTo value) (.ready (r.defaultsTo value))
  | withOptions {d d' : Declaration} {options : Options} (h : d.withOptions options = .ok d') :
      Refines (.ready d) (.withOptions options) (.ready d')
  | require {d : Declaration} {r : Required} (h : d.require? = some r) :
      Refines (.ready d) .require r

inductive RefinesBy : Required → List Refinement → Required → Prop
  | nil (r : Required) : RefinesBy r [] r
  | cons {r r' r'' : Required} {step : Refinement} {rest : List Refinement}
      (h : Refines r step r') (hrest : RefinesBy r' rest r'') : RefinesBy r (step :: rest) r''

/-- What a chain of refinements makes of a declaration, part by part. -/
structure Outcome (d : Declaration) (chain : List Refinement) (d' : Declaration) : Prop where
  kind_eq : d'.schema.kind = d.schema.kind
  resetOnDisconnect_eq : d'.resetOnDisconnect = d.resetOnDisconnect
  required_iff : d'.schema.required = true ↔ d.schema.required = true ∨ .require ∈ chain
  /-- The last default. -/
  default?_eq : d'.default? = (chain.filterMap Refinement.default?).getLast?.or d.default?
  /-- Of several values for one option, the first. -/
  get?_options : ∀ name, d'.schema.options.get? name =
    (d.schema.options.get? name).or
      ((chain.filterMap Refinement.options?).findSome? (·.get? name))

/-- A value is required, by the declaration or by the chain, and neither gives a default. -/
def LacksDefault (d : Declaration) (chain : List Refinement) : Prop :=
  (d.schema.required = true ∨ .require ∈ chain) ∧ d.default? = none ∧
    ∀ value, .defaultsTo value ∉ chain

variable {d d' d'' : Declaration} {r r' : Required} {step : Refinement}
  {chain front back : List Refinement}

/-! ## One refinement -/

theorem refines_defaultsTo_iff {value : Value} :
    Refines r (.defaultsTo value) r' ↔ r' = .ready (r.defaultsTo value) := by
  constructor
  · intro h
    cases h
    rfl
  · rintro rfl
    exact .defaultsTo r value

theorem refines_require_iff : Refines (.ready d) .require r ↔ d.require? = some r := by
  constructor
  · intro h
    cases h with
    | require h => exact h
  · exact .require

theorem require?_eq_some : d.require? = some r ↔
    d.schema.supportsRequired = true ∧
      r = if d.default?.isSome then .ready { d with schema := d.schema.asRequired }
        else .pending { d with schema := d.schema.asRequired } := by
  unfold Declaration.require?
  cases d.schema.supportsRequired with
  | false => simp
  | true => exact ⟨fun h => ⟨rfl, (Option.some.inj h).symm⟩, fun h => congrArg some h.2.symm⟩

theorem declaration_of_require? (h : d.require? = some r) :
    r.declaration = { d with schema := d.schema.asRequired } := by
  obtain ⟨-, rfl⟩ := require?_eq_some.1 h
  split <;> rfl

theorem withOptions_eq_ok {options : Options} (h : d.withOptions options = .ok d') :
    d' = { d with schema := { d.schema with options := d.schema.options.extend options } } := by
  unfold Declaration.withOptions Schema.withOptions at h
  obtain ⟨t, ht, h⟩ := bind_eq_ok.1 h
  obtain ⟨-, -, ht⟩ := bind_eq_ok.1 ht
  cases Except.ok.inj ht
  exact (Except.ok.inj h).symm

theorem declaration_defaultsTo (r : Required) (value : Value) :
    r.defaultsTo value = { r.declaration with default? := some value } := by
  cases r <;> rfl

theorem Refines.outcome (h : Refines r step r') :
    Outcome r.declaration [step] r'.declaration := by
  cases h with
  | defaultsTo r value =>
    have hd : (Required.ready (r.defaultsTo value)).declaration =
        { r.declaration with default? := some value } := declaration_defaultsTo r value
    rw [hd]
    exact ⟨rfl, rfl, by simp, rfl, fun name => (Option.or_none).symm⟩
  | @withOptions d d' options h =>
    cases withOptions_eq_ok h
    refine ⟨rfl, rfl, by simp [Required.declaration], rfl, fun name => ?_⟩
    have hone : List.findSome? (·.get? name) [options] = options.get? name :=
      List.findSome?_singleton
    exact (Options.get?_extend _ options name).trans (congrArg _ hone.symm)
  | require h =>
    rw [declaration_of_require? h]
    exact ⟨rfl, rfl, by simp [Schema.asRequired], rfl, fun name => (Option.or_none).symm⟩

/-- What is pending is required and has no default, however it came about. -/
def Waits (r : Required) : Prop := ∀ template, r = .pending template → template.isUsable = false

theorem Refines.waits (h : Refines r step r') : Waits r' := by
  intro template e
  cases h with
  | defaultsTo r value => cases e
  | withOptions h => cases e
  | require h =>
    obtain ⟨-, hr⟩ := require?_eq_some.1 h
    rw [e] at hr
    split at hr
    · cases hr
    · next hnone =>
      cases hr
      simpa [Declaration.isUsable, Schema.asRequired] using hnone

/-! ## Chains -/

theorem refinesBy_nil_iff : RefinesBy r [] r' ↔ r' = r := by
  constructor
  · intro h
    cases h
    rfl
  · rintro rfl
    exact .nil r'

theorem refinesBy_cons_iff :
    RefinesBy r (step :: chain) r' ↔ ∃ mid, Refines r step mid ∧ RefinesBy mid chain r' := by
  constructor
  · intro h
    cases h with
    | cons hstep hrest => exact ⟨_, hstep, hrest⟩
  · rintro ⟨mid, hstep, hrest⟩
    exact .cons hstep hrest

theorem Outcome.refl (d : Declaration) : Outcome d [] d :=
  ⟨rfl, rfl, by simp, rfl, fun name => (Option.or_none).symm⟩

theorem Outcome.trans (h : Outcome d front d') (h' : Outcome d' back d'') :
    Outcome d (front ++ back) d'' where
  kind_eq := h'.kind_eq.trans h.kind_eq
  resetOnDisconnect_eq := h'.resetOnDisconnect_eq.trans h.resetOnDisconnect_eq
  required_iff := by rw [h'.required_iff, h.required_iff, List.mem_append, or_assoc]
  default?_eq := by
    rw [h'.default?_eq, h.default?_eq, List.filterMap_append, List.getLast?_append, Option.or_assoc]
  get?_options := fun name => by
    rw [h'.get?_options, h.get?_options, List.filterMap_append, List.findSome?_append,
      Option.or_assoc]

theorem RefinesBy.outcome (h : RefinesBy r chain r') :
    Outcome r.declaration chain r'.declaration := by
  induction h with
  | nil r => exact .refl _
  | cons hstep _ ih => exact hstep.outcome.trans ih

theorem RefinesBy.waits (h : RefinesBy r chain r') (hr : Waits r) : Waits r' := by
  induction h with
  | nil r => exact hr
  | cons hstep _ ih => exact ih hstep.waits

theorem Outcome.supportsRequired_eq (h : Outcome d chain d') :
    d'.schema.supportsRequired = d.schema.supportsRequired := by
  unfold Schema.supportsRequired
  rw [h.kind_eq]

/-- No default was given before, and none in the chain. -/
theorem Outcome.default?_eq_none_iff (h : Outcome d chain d') :
    d'.default? = none ↔ d.default? = none ∧ ∀ value, .defaultsTo value ∉ chain := by
  rw [h.default?_eq, Option.or_eq_none_iff, List.getLast?_eq_none_iff, List.filterMap_eq_nil_iff,
    and_comm]
  refine and_congr_right fun _ => ⟨fun hnone value hm => ?_, fun hnone step hm => ?_⟩
  · simpa [Refinement.default?] using hnone _ hm
  · cases step with
    | defaultsTo value => exact absurd hm (hnone value)
    | _ => rfl

theorem isUsable_eq_false_iff :
    d.isUsable = false ↔ d.schema.required = true ∧ d.default? = none := by
  simp [Declaration.isUsable]

theorem Outcome.isUsable_eq_false_iff (h : Outcome d chain d') :
    d'.isUsable = false ↔ LacksDefault d chain := by
  rw [StateTree.isUsable_eq_false_iff, h.required_iff, h.default?_eq_none_iff, LacksDefault]

/-! ## Entries -/

/-- As an entry, what is ready and what is pending come to the same. -/
theorem ofRequired_eq (h : Waits r) : Config.ofRequired r = Config.ofDeclaration r.declaration := by
  cases r with
  | ready d => rfl
  | pending template =>
    have hw := h template rfl
    rw [Config.ofRequired, Config.ofDeclaration, Required.declaration, hw]
    rfl

theorem compile_ofDeclaration (c : Compiler) (d : Declaration) (s : Store) :
    c.compile (.ofDeclaration d) s =
      if d.isUsable then .ok (s.scalar d) else .error (.missingDefault Path.root) := by
  unfold Compiler.compile Config.ofDeclaration
  split
  · next husable => rw [Compiler.build, if_pos husable]
  · rw [Compiler.build]

/-- Making a declaration required and giving it a default come to the same in either order. -/
theorem require_defaultsTo_comm (hd : d.schema.supportsRequired = true) (value : Value) :
    RefinesBy (.ready d) [.require, .defaultsTo value] r ↔
      RefinesBy (.ready d) [.defaultsTo value, .require] r := by
  have hfirst := require?_eq_some.2 ⟨hd, rfl⟩
  have hlast : (d.defaultsTo value).require? =
      some (.ready ⟨d.schema.asRequired, some value, d.resetOnDisconnect⟩) :=
    require?_eq_some.2 ⟨hd, rfl⟩
  have hleft : RefinesBy (.ready d) [.require, .defaultsTo value] r ↔
      r = .ready ⟨d.schema.asRequired, some value, d.resetOnDisconnect⟩ := by
    simp only [refinesBy_cons_iff, refinesBy_nil_iff, refines_require_iff, refines_defaultsTo_iff,
      exists_eq_left, hfirst, Option.some.injEq, exists_eq_left', declaration_defaultsTo,
      declaration_of_require? hfirst]
  have hright : RefinesBy (.ready d) [.defaultsTo value, .require] r ↔
      r = .ready ⟨d.schema.asRequired, some value, d.resetOnDisconnect⟩ := by
    simp only [refinesBy_cons_iff, refinesBy_nil_iff, refines_require_iff, refines_defaultsTo_iff,
      exists_eq_left, Required.defaultsTo, hlast, Option.some.injEq, exists_eq_left']
  rw [hleft, hright]

/-- The outcome of a chain is a matter of the last default, the order of the options and whether
it makes the declaration required at all. As an entry it is a scalar if it is not required or has
a default. Otherwise the same declaration is pending still, and cannot be compiled. -/
theorem refined (h : RefinesBy (.ready d) chain r) :
    Outcome d chain r.declaration ∧
    (∀ d', r = .ready d' → d.schema.supportsRequired = true →
      (∃ r', Refines r .require r') ∧
      ∀ value r', RefinesBy r [.require, .defaultsTo value] r' ↔
        RefinesBy r [.defaultsTo value, .require] r') ∧
    (Config.ofRequired r =
      if r.declaration.schema.required = false ∨ r.declaration.default?.isSome = true
      then .scalar r.declaration else .pending r.declaration) ∧
    ∀ (c : Compiler) (s : Store),
      (c.compile (.ofRequired r) s = .error (.missingDefault Path.root) ↔ LacksDefault d chain) ∧
      (¬ LacksDefault d chain → c.compile (.ofRequired r) s = .ok (s.scalar r.declaration)) := by
  have ho : Outcome d chain r.declaration := h.outcome
  have he := ofRequired_eq (h.waits (r := .ready d) fun _ e => by cases e)
  refine ⟨ho, ?_, ?_, fun c s => ?_⟩
  · rintro d' rfl hd
    have hd' : d'.schema.supportsRequired = true := ho.supportsRequired_eq.trans hd
    exact ⟨⟨_, .require (require?_eq_some.2 ⟨hd', rfl⟩)⟩,
      fun value r' => require_defaultsTo_comm hd' value⟩
  · rw [he, Config.ofDeclaration, Declaration.isUsable]
    simp
  · rw [he, compile_ofDeclaration, ← ho.isUsable_eq_false_iff]
    cases r.declaration.isUsable <;> simp

/-- An address that is required and may not be longer than a limit. A second default replaces the
first one, and a flag that is set already stays set. -/
def addressChain : List Refinement :=
  [.defaultsTo (.string "a@b"), .withOptions (.ofFields [("isEmail", .bool false)]), .require,
    .withOptions (.ofFields [("isUrl", .bool true), ("pattern", .string "@")]),
    .defaultsTo (.string "c@d")]

/-- What the chain makes of an address. -/
def requiredAddress : Declaration :=
  ⟨{ (Schema.primitive .string).asRequired with options := (Options.ofFields
      [("isEmail", .bool true), ("isUrl", .bool true), ("pattern", .string "@")]) },
    some (.string "c@d"), false⟩

theorem refined_address :
    RefinesBy (.ready .email) addressChain (.ready requiredAddress) ∧
      requiredAddress.schema.options.get? "isEmail" = some (.bool true) ∧
      ¬ LacksDefault .email addressChain ∧
      Compiler.standard.compile (.ofRequired (.ready requiredAddress)) ∅ =
        .ok (Store.scalar ∅ requiredAddress) := by
  have h : RefinesBy (.ready .email) addressChain (.ready requiredAddress) :=
    .cons (.defaultsTo _ _) (.cons (.withOptions rfl) (.cons (.require rfl)
      (.cons (.withOptions rfl) (.cons (.defaultsTo _ _) (.nil _)))))
  obtain ⟨ho, -, -, hcompile⟩ := refined h
  have hlacks : ¬ LacksDefault .email addressChain := fun hl =>
    hl.2.2 (.string "a@b") List.mem_cons_self
  exact ⟨h, ho.get?_options "isEmail", hlacks, (hcompile .standard ∅).2 hlacks⟩

end StateTree
