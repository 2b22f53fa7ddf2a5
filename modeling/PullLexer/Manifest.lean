import PullLexer.Text.Basic

/-!
# Manifest

The release number, and the names under which the parts of a lexer are
published, in order.
-/

namespace PullLexer.Manifest

def version : Text := "0.1.0".toList

def names : List String :=
  ["Scanner", "Token", "ScanMatch", "Rule", "RuleTable", "is_anchored", "TokenFactory",
    "DefaultTokenFactory", "ScannerConfig", "get_scanner_config", "set_scanner_config",
    "reset_scanner_config", "scanner_config_context", "ScannerError", "InvalidInput",
    "InvalidPattern", "UnsafeZeroWidthMatch", "InvalidArgument", "InvalidToken", "__version__"]

end PullLexer.Manifest
