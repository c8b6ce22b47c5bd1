/-! What a program leaves behind. -/

namespace DramPhy

structure ToolReport where
  code : Nat
  output : String
  log : List String
  /-- The path and the contents of the file that was written. -/
  file : Option (String × String)

/-- Exit status of a program whose arguments are not understood. -/
def usageCode : Nat := 2

/-- Exit status of a program that a fault has ended. -/
def faultCode : Nat := 101

def ToolReport.usage : ToolReport := ⟨usageCode, "", [], none⟩

end DramPhy
