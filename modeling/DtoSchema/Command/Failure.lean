import DtoSchema.Batch
import DtoSchema.Command.Flag
import DtoSchema.File.Output
import DtoSchema.Settings.Basic

/-!
# Failures of commands
-/

namespace DtoSchema.Command

open Text

/-- Why a command fails. -/
inductive Failure where
  /-- The words of the command line cannot be read. -/
  | flag (error : FlagError)
  /-- There is no command of this name; these are similar. -/
  | unknownCommand (name : Text) (similar : List Text)
  /-- A command without arguments was given one. -/
  | unwantedArgument (command argument : Text)
  /-- A command that needs an argument was given none. -/
  | missingArgument
  /-- There are no settings. -/
  | settings (error : Settings.Error)
  /-- There is no dialect of this name. -/
  | unknownDialect (name : Text)
  /-- There is no format of this name. -/
  | unknownFormat (name : Text)
  /-- The number of jobs is not positive. -/
  | tooFewJobs (jobs : Int)
  /-- The standard input is named more than once. -/
  | inputRepeated
  /-- The inputs cannot be converted. -/
  | batch (failure : Batch.Failure)
  /-- The output files cannot be written. -/
  | output (error : OutputError)
  /-- The use of colours is set to something unknown. -/
  | unknownColour (setting : Text)
  /-- There is no directory for the output of a watch. -/
  | noOutput
  /-- The standard input cannot be watched. -/
  | inputWatched
  /-- A directory cannot be watched. -/
  | unwatchable (directory : Text) (refusal : Refusal)
  /-- There are errors among the diagnostics, which have been reported. -/
  | reported
  deriving DecidableEq, Repr

/-- The name of the program. -/
def programName : Text := "dto2zod"

/-- The lines that name similar commands. -/
def similarMessage (similar : List Text) : Text :=
  let line (name : Text) : Text := "\t" ++ name ++ "\n"
  onlyIf (!similar.isEmpty) ("\n\nDid you mean this?\n" ++ similar.flatMap line)

/-- The message that a command line has a word for which there is no command. -/
def unknownCommandMessage (word command : Text) : Text :=
  "unknown command " ++ quoted word ++ " for " ++ quoted command

/-- What there is left to say about a failure.  Diagnostics that have been reported need no more. -/
def Failure.message? : Failure → Option Text
  | flag e => some e.message
  | unknownCommand name similar =>
    some (unknownCommandMessage name programName ++ similarMessage similar)
  | unwantedArgument command argument =>
    some (unknownCommandMessage argument (programName ++ " " ++ command))
  | missingArgument => some "requires at least 1 arg(s), only received 0"
  | settings e => some e.message
  | unknownDialect name => some (Dialect.Choice.unknownMessage name)
  | unknownFormat name => some (Diagnostic.Format.unknownMessage name)
  | tooFewJobs jobs => some ("--jobs must be at least 1, got " ++ ofInt jobs)
  | inputRepeated => some ("stdin (" ++ quoted standardInput ++ ") can be read only once")
  | batch f => some f.message
  | output e => some e.message
  | unknownColour setting => some ("invalid --color value " ++ quoted setting ++ " (auto|on|off)")
  | noOutput => some "watch requires --out"
  | inputWatched => some "watch cannot read stdin"
  | unwatchable dir refusal => some ("watching " ++ dir ++ ": " ++ refusal.message)
  | reported => none

end DtoSchema.Command
