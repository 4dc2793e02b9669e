namespace BlockExchange.Path

def root : String := ""

def separator : Char := '/'

def isRoot (path : String) : Bool :=
  path == root

def fileName (path : String) : String :=
  String.ofList (path.toList.reverse.takeWhile (· != separator)).reverse

/-- What stands before the last separator; a path without one lies in the root. -/
def parent (path : String) : String :=
  String.ofList ((path.toList.reverse.dropWhile (· != separator)).drop 1).reverse

def join (parent name : String) : String :=
  if isRoot parent then name else parent ++ String.singleton separator ++ name

end BlockExchange.Path
