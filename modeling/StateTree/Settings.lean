import StateTree.Inference

/-
  What a compiler leaves open: the policy for literal containers, the policy for instances, and
  which values are elements.
-/

namespace StateTree

/-- What becomes of a literal array and of an empty record. -/
inductive ContainerPolicy
  /-- It is one scalar that holds the whole. -/
  | whole
  /-- It is a list of nodes, or a composite without fields. -/
  | structural
deriving DecidableEq

/-- The settings that a document can give. -/
structure Settings where
  containers : ContainerPolicy
  instances : InstancePolicy
deriving DecidableEq

namespace Settings

def standard : Settings := ⟨.whole, .instanceOf⟩

end Settings

structure Compiler where
  settings : Settings
  isElement : Value → Bool

namespace Compiler

/-- The standard settings, and no value is an element. -/
def standard : Compiler := ⟨.standard, fun _ => false⟩

def inference (c : Compiler) : Inference := ⟨c.isElement, c.settings.instances⟩

end Compiler

end StateTree
