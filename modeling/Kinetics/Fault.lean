/-!
# Faults

Every way in which reading a mechanism, writing code or running a check can stop. A fault names
its cause in the words of the domain; nothing else in the library carries error text.
-/

namespace Kinetics

/-- Why an operation stopped before giving a result. -/
inductive Fault where
  /-- A quotient with a zero divisor, or a negative power of zero. -/
  | divisionByZero
  /-- A finite computation left the range of the number format. -/
  | overflow
  | outOfDomain
  /-- Text that should be a number and is not. -/
  | notNumeric
  /-- A number that cannot be written in the requested form. -/
  | unprintable
  | missingEntry
  /-- A value sought in a list that does not hold it. -/
  | notListed
  /-- Two operands whose sizes do not fit together. -/
  | sizeMismatch
  /-- A value that the operation does not admit. -/
  | unacceptable
  /-- A name that a table does not list. -/
  | unknownName (name : String)
  /-- A value that is needed although no earlier step has set it. -/
  | unset (name : String)
  | unsupported (reason : String)
  /-- A rule that the caller must respect and did not. -/
  | broken (rule : String)
  /-- An operand of a kind that the operation does not take. -/
  | wrongKind
  /-- A record without the requested part. -/
  | noSuchPart
  /-- A name that stands for nothing where it is used. -/
  | undefinedName (name : String)
  /-- A message for the user, after which the run ends with a status. -/
  | halt (said : String) (status : Option Int)
  /-- A failure signalled where there is nothing to pass on. -/
  | bareFailure
  /-- The environment lacks a required setting. -/
  | environment (setting : String)
  /-- A file name that does not follow the naming rule. -/
  | misnamed (file : String)
  /-- A stored sequence that ends too early. -/
  | truncated
  | commandMissing
  | commandFailed
  | noSuchFile
  /-- A path that leads through a plain file. -/
  | notADirectory
  /-- A folder where a plain file is needed. -/
  | isADirectory
  | nameTooLong
  deriving Repr, DecidableEq, Inhabited

end Kinetics
