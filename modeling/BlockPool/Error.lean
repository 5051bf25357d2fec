import BlockPool.Text.Quoted

/-! What a pool may refuse, with the two texts of each refusal: the message for users and the
inspection text for developers. -/

namespace BlockPool

/-- Why a pool refused a request. -/
inductive Error
  | zeroSize
  | tooLarge (requested limit : Nat)
  | outOfMemory (size : Nat)
  | foreignBlock
  | invalidConfig (reason : String)
  deriving DecidableEq, Repr, Inhabited

namespace Error

def message : Error → String
  | zeroSize => "zero-sized allocation requested"
  | tooLarge requested limit =>
    "allocation of " ++ toString requested ++ " bytes exceeds the limit of " ++
      toString limit ++ " bytes"
  | outOfMemory size => "out of memory allocating a " ++ toString size ++ "-byte block"
  | foreignBlock => "block belongs to a different pool"
  | invalidConfig reason => "invalid configuration: " ++ reason

def inspect : Error → String
  | zeroSize => "ZeroSize"
  | tooLarge requested limit =>
    "TooLarge \x7b requested: " ++ toString requested ++ ", limit: " ++ toString limit ++ " \x7d"
  | outOfMemory size => "OutOfMemory \x7b size: " ++ toString size ++ " \x7d"
  | foreignBlock => "ForeignBlock"
  | invalidConfig reason => "InvalidConfig(" ++ Text.quote reason ++ ")"

end Error

end BlockPool
