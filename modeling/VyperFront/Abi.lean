namespace VyperFront.Abi

/-- The version of the grammars that are made. -/
def newest : Nat := 14

/-- The least version that can still be read by. -/
def oldest : Nat := 13

/-- Whether grammars of a version can be read by. -/
def Supported (version : Int) : Prop := oldest ≤ version ∧ version ≤ newest

instance (version : Int) : Decidable (Supported version) := by
  unfold Supported
  infer_instance

end VyperFront.Abi
