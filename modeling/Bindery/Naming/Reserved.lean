/-!
# Reserved names

The names that emitted code uses itself, so that no type or argument may take them.
-/

namespace Bindery.Naming

def runtimeNames : List String :=
  ["Annotated", "Any", "Literal", "Optional", "Field", "StrictStr", "StrictInt", "StrictFloat",
    "StrictBool", "UUID", "datetime", "date", "time", "timedelta", "AnyUrl", "IPv4Address",
    "IPv6Address", "union", "one_of", "all_of", "tagged", "lazy", "model", "prop", "pattern",
    "email", "unique", "choice", "formatted", "from_text", "register", "check", "CheckError"]

def supportNames : List String :=
  ["ApiResponse", "ClientConfig", "RawRequest", "Route", "ValidatedRequest", "ValidationOk",
    "ValidationFailure", "UnexpectedResponseError", "check_body", "send", "functools", "Callable",
    "Union", "QueryParams", "PathParams", "Headers", "OPERATION_ID", "METHOD", "PATH",
    "REQUEST_BODY", "BODY_REQUIRED", "RESPONSES", "SECURITY_HEADERS", "EXPLICIT_NO_AUTH",
    "OPERATIONS", "SERVERS"]

def keywords : List String :=
  ["False", "None", "True", "and", "as", "assert", "async", "await", "break", "class", "continue",
    "def", "del", "elif", "else", "except", "finally", "for", "from", "global", "if", "import",
    "in", "is", "lambda", "nonlocal", "not", "or", "pass", "raise", "return", "try", "while",
    "with", "yield"]

def builtinNames : List String :=
  ["ArithmeticError", "AssertionError", "AttributeError", "BaseException", "BaseExceptionGroup",
    "BlockingIOError", "BrokenPipeError", "BufferError", "BytesWarning", "ChildProcessError",
    "ConnectionAbortedError", "ConnectionError", "ConnectionRefusedError", "ConnectionResetError",
    "DeprecationWarning", "EOFError", "Ellipsis", "EncodingWarning", "EnvironmentError",
    "Exception", "ExceptionGroup", "False", "FileExistsError", "FileNotFoundError",
    "FloatingPointError", "FutureWarning", "GeneratorExit", "IOError", "ImportError",
    "ImportWarning", "IndentationError", "IndexError", "InterruptedError", "IsADirectoryError",
    "KeyError", "KeyboardInterrupt", "LookupError", "MemoryError", "ModuleNotFoundError",
    "NameError", "None", "NotADirectoryError", "NotImplemented", "NotImplementedError", "OSError",
    "OverflowError", "PendingDeprecationWarning", "PermissionError", "ProcessLookupError",
    "RecursionError", "ReferenceError", "ResourceWarning", "RuntimeError", "RuntimeWarning",
    "StopAsyncIteration", "StopIteration", "SyntaxError", "SyntaxWarning", "SystemError",
    "SystemExit", "TabError", "TimeoutError", "True", "TypeError", "UnboundLocalError",
    "UnicodeDecodeError", "UnicodeEncodeError", "UnicodeError", "UnicodeTranslateError",
    "UnicodeWarning", "UserWarning", "ValueError", "Warning", "ZeroDivisionError", "abs", "aiter",
    "all", "anext", "any", "ascii", "bin", "bool", "breakpoint", "bytearray", "bytes", "callable",
    "chr", "classmethod", "compile", "complex", "copyright", "credits", "delattr", "dict", "dir",
    "divmod", "enumerate", "eval", "exec", "exit", "filter", "float", "format", "frozenset",
    "getattr", "globals", "hasattr", "hash", "help", "hex", "id", "input", "int", "isinstance",
    "issubclass", "iter", "len", "license", "list", "locals", "map", "max", "memoryview", "min",
    "next", "object", "oct", "open", "ord", "pow", "print", "property", "quit", "range", "repr",
    "reversed", "round", "set", "setattr", "slice", "sorted", "staticmethod", "str", "sum",
    "super", "tuple", "type", "vars", "zip"]

def reserved : List String :=
  runtimeNames ++ supportNames ++ keywords ++ builtinNames

def isKeyword (name : String) : Bool :=
  keywords.contains name

def isReserved (name : String) : Bool :=
  reserved.contains name

end Bindery.Naming
