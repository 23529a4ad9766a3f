import DocumentBase.Text.Blank
import DocumentBase.Text.Quoted

/-!
# Errors

An error is recorded as its cause; `Error.message` gives the wording.  Errors found before
anything is executed (arguments, assembly, hooks) keep their form, all others are wrapped
once with the operation and the collection that they happened in.
-/

namespace DocumentBase

/-- What is wrong with an argument. -/
inductive Fault where
  | emptyField
  | forbiddenField (field : String)
  | missingValue (field : String)
  | emptySet (operator field : String)
  | unsupportedCombinator (key : String)
  | notAList (combinator : String)
  | childNotDocument (combinator : String)
  | patternNotText (field : String)
  | unsupportedOperator (operator field : String)
  | operandNotArray (comparison field : String)
  | badPattern (field : String)
  | emptyJoinTarget
  | emptyJoin (field : String)
  | zeroLimit
  | noGroupFields
  | twoTargets
  | emptyUpdate
  | noUpdateValues (field : String)
  | operandNotNumeric (field : String)
  | protectedField (field : String)
  | noIdentity
  | payloadKind (expected found : String)
  | unknownCategory (name : String)
  | stated (text : String)
deriving DecidableEq, Repr

/-- Why a document cannot be stored. -/
inductive Defect where
  | forbiddenKey (key : String)
  | codeValue
  | notADocument (typeName : String)
  | noIdentity
  | overflow (field : String)
  | notNumeric (field : String)
  | notArray (field : String)
  | stated (text : String)
deriving DecidableEq, Repr

inductive SetupFault where
  | emptyDatabaseName
  | zeroPageSize
  | zeroCapacity
  | stated (text : String)
deriving DecidableEq, Repr

inductive StorageFault where
  | cacheFull (capacity : Nat)
  | stated (text : String)
deriving DecidableEq, Repr

inductive Error where
  | validation (fault : Fault)
  | alreadyGrouped
  | tooManyGroups (count : Nat)
  | hookFailure (hook collection message : String)
  | execution (operation collection : String) (source : Error)
  | serialization (detail : String)
  | initialization (fault : SetupFault)
  | alreadyExists (id collection : String)
  | notFound (id collection : String)
  | collectionNotFound (collection : String)
  | invalidDocument (defect : Defect)
  | backend (fault : StorageFault)
deriving DecidableEq, Repr

def Fault.message : Fault → String
  | .emptyField => "field name must not be empty"
  | .forbiddenField field => "field name " ++ Text.quote field ++ " is not allowed"
  | .missingValue field => "missing value for " ++ field
  | .emptySet operator field => operator ++ " on " ++ field ++ " requires at least one value"
  | .unsupportedCombinator key => "unsupported filter combinator " ++ key
  | .notAList combinator => combinator ++ " requires an array"
  | .childNotDocument combinator => combinator ++ " children must be documents"
  | .patternNotText field => "$regex on " ++ field ++ " requires a string"
  | .unsupportedOperator operator field =>
    "unsupported filter operator " ++ operator ++ " on " ++ field
  | .operandNotArray comparison field =>
    comparison ++ " on " ++ field ++ " requires an array operand"
  | .badPattern field => "invalid pattern for " ++ field
  | .emptyJoinTarget => "join target collection must not be empty"
  | .emptyJoin field => "join on " ++ field ++ " must allow at least one item"
  | .zeroLimit => "limit must be greater than zero"
  | .noGroupFields => "group_by requires at least one field"
  | .twoTargets => "a pipeline can end with either $out or $merge, not both"
  | .emptyUpdate => "update must set at least one field"
  | .noUpdateValues field => "update of " ++ field ++ " requires at least one value"
  | .operandNotNumeric field => "update of " ++ field ++ " requires a numeric operand"
  | .protectedField field => field ++ " cannot be updated"
  | .noIdentity => "owned reads require an acting identity"
  | .payloadKind expected found => "expected " ++ expected ++ " payload, found " ++ found
  | .unknownCategory name => "unknown cache category " ++ name
  | .stated text => text

def Defect.message : Defect → String
  | .forbiddenKey key => "key " ++ Text.quote key ++ " is not allowed"
  | .codeValue => "code values cannot be stored"
  | .notADocument typeName => "expected a document, found " ++ typeName
  | .noIdentity => "replacement has no _id"
  | .overflow field => field ++ " overflowed"
  | .notNumeric field => field ++ " is not numeric"
  | .notArray field => field ++ " is not an array"
  | .stated text => text

def SetupFault.message : SetupFault → String
  | .emptyDatabaseName => "database name must not be empty"
  | .zeroPageSize => "default page size must be greater than zero"
  | .zeroCapacity => "cache capacity must be greater than zero"
  | .stated text => text

def StorageFault.message : StorageFault → String
  | .cacheFull capacity => "result cache is full (" ++ toString capacity ++ " entries)"
  | .stated text => text

namespace Error

def message : Error → String
  | .validation fault => "Validation failed: " ++ fault.message
  | .alreadyGrouped => "Query is already grouped"
  | .tooManyGroups count =>
    "Pipeline contains " ++ toString count ++ " $group stages, at most one is allowed"
  | .hookFailure hook collection text =>
    "Hook " ++ hook ++ " failed in collection " ++ collection ++ ": " ++ text
  | .execution operation collection source =>
    operation ++ " on collection " ++ collection ++ " failed: " ++ source.message
  | .serialization detail => "Serialization error: " ++ detail
  | .initialization fault => "Initialization error: " ++ fault.message
  | .alreadyExists id collection =>
    "Document " ++ id ++ " already exists in collection " ++ collection
  | .notFound id collection => "Document not found " ++ id ++ " in collection " ++ collection
  | .collectionNotFound collection => "Collection not found: " ++ collection
  | .invalidDocument defect => "Invalid document: " ++ defect.message
  | .backend fault => "Backend error: " ++ fault.message

def source? : Error → Option Error
  | .execution _ _ source => some source
  | _ => none

/-- The errors inside an error, from the outermost one. -/
def sources : Error → List Error
  | .execution _ _ source => source :: source.sources
  | _ => []

/-- Adds the operation and the collection, unless the error was found before execution or
has them already. -/
def inOperation (operation collection : String) : Error → Error
  | .validation fault => .validation fault
  | .alreadyGrouped => .alreadyGrouped
  | .tooManyGroups count => .tooManyGroups count
  | .hookFailure hook place text => .hookFailure hook place text
  | .execution first place source => .execution first place source
  | other => .execution operation collection other

/-- The innermost operation is the one that is told. -/
@[simp]
theorem inOperation_inOperation (e : Error) (first place second elsewhere : String) :
    (e.inOperation first place).inOperation second elsewhere = e.inOperation first place := by
  cases e <;> rfl

end Error

/-- The result of an operation that may fail. -/
abbrev Outcome := Except Error

/-- A field name that is not blank, does not start with a dollar sign and has no NUL. -/
def checkField (field : String) : Outcome Unit :=
  if Text.isBlank field then .error (.validation .emptyField)
  else if field.toList.head? = some '$' || field.toList.contains '\x00' then
    .error (.validation (.forbiddenField field))
  else .ok ()

end DocumentBase
