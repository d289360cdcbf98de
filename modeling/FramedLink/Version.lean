/-! # Version -/

namespace FramedLink

def version : String := "0.1.0"

end FramedLink
