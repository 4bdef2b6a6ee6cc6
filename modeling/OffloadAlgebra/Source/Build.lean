import OffloadAlgebra.Source.Scan
import OffloadAlgebra.Source.Flags
/-!
  The kernel text front end.

  `frontEnd` checks the build flags and scans the text.  If either found a fault, the answer is
  the build log: flag faults first, then source faults in scan order, then the delimiters left
  open.  Otherwise the answer is the names of the kernels the text defines, in order.
-/

namespace OffloadAlgebra.Source

/-- The kernel names of well-formed text, or the build log of faulty text or flags. -/
def frontEnd (source flags : String) : Except String (List String) :=
  let scanned := scan source
  let log := String.join (flagLog flags) ++ String.join (scanned.complaints.map Complaint.logLine)
  if log.isEmpty then .ok (kernelNames scanned.tokens) else .error log

end OffloadAlgebra.Source
