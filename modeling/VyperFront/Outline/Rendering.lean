import VyperFront.Json.Value
import VyperFront.Outline.Declaration

namespace VyperFront.Outline

def jsonText (t : Text) : Json := .string (String.ofList t)

def Parameter.toJson (p : Parameter) : Json :=
  .object <| [("name", jsonText p.name), ("type", Json.ofOption jsonText p.type)] ++
    match p.value with
    | some value => [("default", jsonText value)]
    | none => []

def Function.toJson (f : Function) : Json :=
  .object
    [("type", .string "function"), ("name", jsonText f.name),
     ("decorators", .array (f.decorators.map jsonText)),
     ("args", .array (f.parameters.map Parameter.toJson)),
     ("return", Json.ofOption jsonText f.returns),
     ("mutability", Json.ofOption (fun m => .string m.text) f.mutability)]

def Variable.toJson (v : Variable) : Json :=
  .object
    [("type", .string "variable"), ("name", jsonText v.name), ("var_type", jsonText v.type),
     ("modifiers", .array (v.modifiers.map fun m => .string m.text)),
     ("value", Json.ofOption jsonText v.value)]

/-- A field of an event, which may be indexed. -/
def eventField (v : Variable) : Json :=
  .object
    [("name", jsonText v.name), ("type", jsonText v.type),
     ("indexed", .bool (v.modifiers.contains .indexed))]

def structField (v : Variable) : Json :=
  .object [("name", jsonText v.name), ("type", jsonText v.type)]

/-- A declaration of a named thing with parts. -/
def named (type : String) (name : Text) (label : String) (parts : List Json) : Json :=
  .object [("type", .string type), ("name", jsonText name), (label, .array parts)]

def Declaration.toJson : Declaration → Json
  | function f => f.toJson
  | storage v => v.toJson
  | implements name => .object [("type", .string "implements"), ("interface", jsonText name)]
  | event name fields => named "event" name "fields" (fields.map eventField)
  | struct name fields => named "struct" name "fields" (fields.map structField)
  | flag name members => named "flag" name "members" (members.map jsonText)
  | interface name functions =>
    named "interface" name "functions" (functions.map Function.toJson)

def toJson (declarations : List Declaration) : Json :=
  .array (declarations.map Declaration.toJson)

end VyperFront.Outline
