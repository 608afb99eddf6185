import FlightScript.Runtime.Operation
import FlightScript.Files.Tree
import FlightScript.Main
import FlightScript.Proofs.Engine.Announcement
import FlightScript.Proofs.Engine.Result
import FlightScript.Proofs.Engine.Stopping
import FlightScript.Proofs.Script.Reading
import FlightScript.Proofs.Validation.Declaration
import FlightScript.Proofs.Validation.Soundness
import FlightScript.Proofs.Engine.Signal
import FlightScript.Proofs.Engine.Cancelling
import FlightScript.Proofs.Engine.Snapshot
import FlightScript.Proofs.Run.Outcome
import FlightScript.Proofs.Runtime.Capacity
import FlightScript.Proofs.Runtime.Publishing
import FlightScript.Proofs.Engine.Independence
import FlightScript.Proofs.Script.Joining
import FlightScript.Proofs.Engine.Surroundings
import FlightScript.Proofs.Engine.Publishing
import FlightScript.Proofs.Engine.Admission
import FlightScript.Proofs.Engine.Inlining
import FlightScript.Proofs.Engine.Hidden
import FlightScript.Proofs.Engine.Saved
import FlightScript.Proofs.Library.Catalogue
import FlightScript.Proofs.Execution.Tokens
import FlightScript.Proofs.Validation.Nesting
import FlightScript.Proofs.Object.Assignments
import FlightScript.Proofs.Engine.Variables
import FlightScript.Proofs.Object.Rotation
import FlightScript.Proofs.Script.Order
import FlightScript.Proofs.Object.Enumeration
import FlightScript.Proofs.Object.Epoch
import FlightScript.Proofs.Engine.Log
import FlightScript.Proofs.Value.Reading
import FlightScript.Proofs.Script.Json
import FlightScript.Proofs.Script.Comparison
import FlightScript.Proofs.Text.Splitting
import FlightScript.Proofs.Library.Listing
import FlightScript.Proofs.Settings.Loading
import FlightScript.Proofs.CommandLine.Agreement
import FlightScript.Proofs.Job.Lifecycle
