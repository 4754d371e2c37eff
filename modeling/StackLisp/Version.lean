/-!
# The version of the language
-/

namespace StackLisp

def version : String := "0.1.0"

end StackLisp
