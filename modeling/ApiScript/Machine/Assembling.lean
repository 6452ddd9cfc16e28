import ApiScript.Machine
import ApiScript.Program.Assembly

/-!
# Assembling for a machine

A machine that is to run a program has to know its functions. Assembling registers their
signatures with the machine, and those seen before a fault stay.
-/
namespace ApiScript.Machine

/-- An assembly that knows the functions of the machine. -/
def startAssembly (m : Machine) : Assembly := { signatures := m.store.signatures }

def adoptSignatures (m : Machine) (a : Assembly) : Machine :=
  { m with store := { m.store with signatures := a.signatures } }

/-- Assembles files, each with its name, into one program. -/
def assemble (m : Machine) (sources : List (String × String)) : Except Fault Program × Machine :=
  match m.startAssembly.appendSources m.isBuiltin sources with
  | (a, some fault) => (.error fault, m.adoptSignatures a)
  | (a, none) => (a.finish, m.adoptSignatures a)

end ApiScript.Machine
