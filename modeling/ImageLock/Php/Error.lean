/-
What can be wrong with a PHP definition, its locks, or the way to them.
-/
import ImageLock.Definition
import ImageLock.Php.Composer
import ImageLock.Stage.Set
import ImageLock.World

namespace ImageLock

namespace ExtensionError

def message : ExtensionError → String
  | .invalidStability text =>
      "invalid stability " ++ Text.quoted text ++ ": expected stable, beta, alpha or devel"
  | .index .cancelled => "operation cancelled"
  | .index (.unavailable url reason) => "could not query " ++ url ++ ": " ++ reason
  | .invalidConstraint name constraint =>
      "invalid version constraint " ++ Text.quoted constraint ++ " for extension " ++ name
  | .notFound name constraint stability =>
      "extension " ++ name ++ " has no " ++ stability.name ++ " release matching " ++
        Text.quoted constraint

end ExtensionError

namespace Php

inductive Error where
  | definition (error : DefinitionError)
  | stage (error : StageError)
  | versionAndBase
  | missingVersionOrBase
  | fpmWithoutCommand
  | conflictingDumpFlags
  | invalidHealthcheck (stage : String) (error : HealthcheckError)
  | unknownIntegration (name : String)
  | unsupportedProbe (version : String)
  | undecodableRequirements
  | access (error : AccessError)
  | packages (error : PackageError)
  | extension (error : ExtensionError)
  | noLocks (stage : String)
deriving DecidableEq, Repr

namespace Error

def message : Error → String
  | .definition error => error.message
  | .stage error => error.message
  | .versionAndBase => "you can't specify version and base parameters at the same time"
  | .missingVersionOrBase => "you have to specify either version or base parameter"
  | .fpmWithoutCommand => "FPM mode is disabled but no command was provided"
  | .conflictingDumpFlags =>
      "you can't use both --apcu and --classmap-authoritative flags. See " ++
        "https://getcomposer.org/doc/articles/autoloader-optimization.md"
  | .invalidHealthcheck name error =>
      "stage " ++ Text.quoted name ++ " has an invalid healthcheck: " ++ error.message
  | .unknownIntegration name => "unknown integration " ++ Text.quoted name
  | .unsupportedProbe version =>
      "blackfire integration doesn't support PHP " ++ Text.quoted version
  | .undecodableRequirements => "could not decode composer.lock"
  | .access error => error.message
  | .packages error => "could not resolve system packages: " ++ error.message
  | .extension error => error.message
  | .noLocks name =>
      "no locks available for stage " ++ Text.quoted name ++ ". Please update your lockfile"

def causes : Error → List String
  | .definition error => error.causes
  | .invalidHealthcheck _ error => [error.message]
  | .access error => error.causes
  | .packages error => error.message :: error.causes
  | _ => []

def ofPlatform : PlatformError → Error
  | .access error => .access error
  | .undecodable => .undecodableRequirements

end Error
end Php
end ImageLock
