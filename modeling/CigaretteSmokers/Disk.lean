import CigaretteSmokers.Fault

namespace CigaretteSmokers

/-- Where files are read and written. -/
class Disk (m : Type → Type) where
  read : String → m (Except FileError String)
  /-- Makes a file, or empties the one that is there. -/
  create : String → m (Except FileError Unit)
  append : String → String → m (Except FileError Unit)

end CigaretteSmokers
