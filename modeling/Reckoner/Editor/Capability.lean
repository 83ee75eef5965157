import Reckoner.Editor.Shape

/-! # Capabilities of an editor

When a conversation begins the editor tells what it is capable of.  None of it
matters to the session, but all of it has to be of the right shape. -/
set_option autoImplicit false
namespace Reckoner.Editor.Capability

open Shape (switches valueSet int32 uint32)

def registration : String := "dynamicRegistration"

def plain : Shape := switches [registration] []

def texts : Shape := .list .string

def properties : Shape := .record [("properties", texts)]

def refreshed : Shape := switches ["refreshSupport"] []

def workspaceEdit : Shape :=
  switches ["documentChanges", "normalizesLineEndings"]
    [("resourceOperations", texts), ("failureHandling", .string),
      ("changeAnnotationSupport", switches ["groupsOnLabel"] [])]

def workspaceSymbol : Shape :=
  switches [registration] [("symbolKind", valueSet int32), ("tagSupport", valueSet int32)]

def fileOperations : Shape :=
  switches [registration, "didCreate", "willCreate", "didRename", "willRename", "didDelete",
    "willDelete"] []

def workspace : Shape :=
  switches ["applyEdit", "workspaceFolders", "configuration"]
    [("workspaceEdit", workspaceEdit), ("didChangeConfiguration", plain),
      ("didChangeWatchedFiles", plain), ("symbol", workspaceSymbol), ("executeCommand", plain),
      ("semanticTokens", refreshed), ("codeLens", refreshed), ("fileOperations", fileOperations)]

def synchronization : Shape :=
  switches [registration, "willSave", "willSaveWaitUntil", "didSave"] []

def completionItem : Shape :=
  switches ["snippetSupport", "commitCharactersSupport", "deprecatedSupport", "preselectSupport",
      "insertReplaceSupport"]
    [("documentationFormat", texts), ("tagSupport", valueSet int32), ("resolveSupport", properties),
      ("insertTextModeSupport", valueSet int32)]

def completion : Shape :=
  switches [registration, "contextSupport"]
    [("completionItem", completionItem), ("completionItemKind", valueSet int32)]

def hover : Shape := switches [registration] [("contentFormat", texts)]

def signatureInformation : Shape :=
  switches ["activeParameterSupport"]
    [("documentationFormat", texts), ("parameterInformation", switches ["labelOffsetSupport"] [])]

def signatureHelp : Shape :=
  switches [registration, "contextSupport"] [("signatureInformation", signatureInformation)]

def linked : Shape := switches [registration, "linkSupport"] []

def documentSymbol : Shape :=
  switches [registration, "hierarchicalDocumentSymbolSupport", "labelSupport"]
    [("symbolKind", valueSet int32), ("tagSupport", valueSet int32)]

def codeAction : Shape :=
  switches [registration, "isPreferredSupport", "disabledSupport", "dataSupport",
      "honorsChangeAnnotations"]
    [("codeActionLiteralSupport", .record [("codeActionKind", valueSet .string)]),
      ("resolveSupport", properties)]

def rename : Shape :=
  switches [registration, "prepareSupport", "honorsChangeAnnotations"]
    [("prepareSupportDefaultBehavior", int32)]

def publishDiagnostics : Shape :=
  switches ["relatedInformation", "versionSupport", "codeDescriptionSupport", "dataSupport"]
    [("tagSupport", valueSet int32)]

def foldingRange : Shape := switches [registration, "lineFoldingOnly"] [("rangeLimit", uint32)]

/-- Requests that are supported or not, or with conditions. -/
def semanticRequests : Shape :=
  .record [("range", .either .bool (.record [])), ("full", .either .bool (switches ["delta"] []))]

def semanticTokens : Shape :=
  switches [registration, "overlappingTokenSupport", "multilineTokenSupport"]
    [("requests", semanticRequests), ("tokenTypes", texts), ("tokenModifiers", texts),
      ("formats", texts)]

def textDocument : Shape :=
  .record [("synchronization", synchronization), ("completion", completion), ("hover", hover),
    ("signatureHelp", signatureHelp), ("declaration", linked), ("definition", linked),
    ("typeDefinition", linked), ("implementation", linked), ("references", plain),
    ("documentHighlight", plain), ("documentSymbol", documentSymbol), ("codeAction", codeAction),
    ("codeLens", plain), ("documentLink", switches [registration, "tooltipSupport"] []),
    ("colorProvider", plain), ("formatting", plain), ("rangeFormatting", plain),
    ("onTypeFormatting", plain), ("rename", rename), ("publishDiagnostics", publishDiagnostics),
    ("foldingRange", foldingRange), ("selectionRange", plain), ("linkedEditingRange", plain),
    ("callHierarchy", plain), ("semanticTokens", semanticTokens), ("moniker", plain)]

def showMessage : Shape :=
  .record [("messageActionItem", switches ["additionalPropertiesSupport"] [])]

def window : Shape :=
  switches ["workDoneProgress"]
    [("showMessage", showMessage), ("showDocument", switches ["support"] [])]

def general : Shape :=
  .record [("regularExpressions", .record [("engine", .string), ("version", .string)]),
    ("markdown", .record [("parser", .string), ("version", .string)])]

def client : Shape :=
  .record [("workspace", workspace), ("textDocument", textDocument), ("window", window),
    ("general", general), ("experimental", .any)]

end Reckoner.Editor.Capability
