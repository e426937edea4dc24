/-!
Numbers that name the parts of a program. Each kind of name is a type of its own, so a function cannot
be looked up by the number of a machine. All of them are 32-bit words, the range a program text may use.
-/

namespace Reentry

/-- Position in the program's list of functions. -/
structure FunctionId where
  index : UInt32
deriving DecidableEq, Repr, Inhabited

/-- Position in the program's list of machine types. -/
structure MachineTypeId where
  index : UInt32
deriving DecidableEq, Repr, Inhabited

/-- Position in the program's list of events. -/
structure EventId where
  index : UInt32
deriving DecidableEq, Repr, Inhabited

/-- Position in a machine type's list of states. -/
structure StateId where
  index : UInt32
deriving DecidableEq, Repr, Inhabited

/-- Key of a node in the type table of its function. -/
structure NodeId where
  index : UInt32
deriving DecidableEq, Repr, Inhabited

/-- Handle of a running actor. -/
structure MachineId where
  index : UInt32
deriving DecidableEq, Repr, Inhabited

end Reentry
