import ChipEight.Text.Hex
import ChipEight.Text.Decimal
import ChipEight.Text.Numeral
import ChipEight.Quantity
import ChipEight.Fault
import ChipEight.Instruction.Operation
import ChipEight.Instruction.Word
import ChipEight.Instruction.Decode
import ChipEight.Lane
import ChipEight.Error
import ChipEight.Memory
import ChipEight.CallStack
import ChipEight.Keypad
import ChipEight.Display.Grid
import ChipEight.Display.Sprite
import ChipEight.Random
import ChipEight.State
import ChipEight.Arithmetic
import ChipEight.Execute
import ChipEight.Cycle
import ChipEight.Console
import ChipEight.Notice
import ChipEight.Machine
import ChipEight.Schedule.Time
import ChipEight.Schedule.Frontend
import ChipEight.Schedule.Plan
import ChipEight.Schedule.Run
import ChipEight.Schedule.Script
import ChipEight.Schedule.Headless
import ChipEight.Picture.Scheme
import ChipEight.Picture.Frame
import ChipEight.Picture.Screenshot
import ChipEight.Calendar
import ChipEight.Window
import ChipEight.Settings.Given
import ChipEight.Settings.Basic
import ChipEight.Settings.Reference
import ChipEight.Settings.Merge
import ChipEight.Settings.Override
import ChipEight.Session
import ChipEight.Demo
import ChipEight.Schedule.Live
import ChipEight.Main
import ChipEight.Proofs.Success
import ChipEight.Proofs.Effects
import ChipEight.Proofs.Classes
import ChipEight.Proofs.CallStack
import ChipEight.Proofs.Faults
import ChipEight.Proofs.Words
import ChipEight.Proofs.ProgramCounter
import ChipEight.Proofs.Histories
import ChipEight.Proofs.Invariant
import ChipEight.Proofs.Redraw
import ChipEight.Proofs.Schedule.ExactTime
import ChipEight.Proofs.Schedule.Phases
import ChipEight.Proofs.Schedule.TimerCadence
import ChipEight.Proofs.Halves
import ChipEight.Proofs.Frames
import ChipEight.Proofs.Transcripts
import ChipEight.Proofs.Halting
import ChipEight.Proofs.Restart
import ChipEight.Proofs.Batches
import ChipEight.Proofs.TimerIndependence
import ChipEight.Proofs.Schedule.Outcomes
import ChipEight.Proofs.Schedule.InstructionTime
import ChipEight.Proofs.Schedule.Replay
import ChipEight.Proofs.Schedule.Report
import ChipEight.Proofs.Schedule.Undisturbed
import ChipEight.Proofs.Schedule.Headless
import ChipEight.Proofs.Schedule.Drivers
import ChipEight.Proofs.WriteSets
import ChipEight.Proofs.Arithmetic
import ChipEight.Proofs.SequentialDrawing
import ChipEight.Proofs.Sprites
import ChipEight.Proofs.ReadSets
import ChipEight.Proofs.Commuting
import ChipEight.Proofs.Schedule.Pictures
import ChipEight.Proofs.KeyHistory
import ChipEight.Proofs.RandomStream
import ChipEight.Proofs.Screenshots
import ChipEight.Proofs.Keyboard
import ChipEight.Proofs.Schedule.Pace
import ChipEight.Proofs.Schedule.Termination
import ChipEight.Proofs.Shapes
import ChipEight.Proofs.BlockTransfers
import ChipEight.Proofs.Blits
import ChipEight.Proofs.Waiting
import ChipEight.Proofs.BoundedStack
import ChipEight.Proofs.Decoders
import ChipEight.Proofs.Rendering
import ChipEight.Proofs.FirstFault
import ChipEight.Proofs.Accessors
import ChipEight.Proofs.WindowPictures
import ChipEight.Proofs.Doubles
import ChipEight.Proofs.AcceptedSettings
