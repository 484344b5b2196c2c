import ScriptBuild.Text.Basic

/-! Tracing: spans go nowhere without an endpoint. -/

namespace ScriptBuild

inductive TracingError where
  | schemaConflict

namespace TracingError

def schema (version : Text) : Text := "https:" ++ "//opentelemetry.io/schemas/" ++ version

def message : TracingError → Text
  | .schemaConflict =>
    "create resource: conflicting Schema URL: " ++ schema "1.39.0" ++ " and " ++ schema "1.24.0"

end TracingError

structure Tracer where

namespace Tracer

def start (endpoint : Text) : Except TracingError Tracer :=
  if endpoint.isEmpty then .ok {} else .error .schemaConflict

def isSampled (_ : Tracer) (_parent : Text) : Bool := false

end Tracer

end ScriptBuild
