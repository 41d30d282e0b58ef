import Avro.Main
import Avro.Proofs.Binding.Imports
import Avro.Proofs.Binding.Members
import Avro.Proofs.Command.Outputs
import Avro.Proofs.Diff
import Avro.Proofs.FileTree.Discovery
import Avro.Proofs.Idl.Annotations
import Avro.Proofs.Pipeline.Failures
import Avro.Proofs.Pipeline.Order
import Avro.Proofs.Protocol.Listing
import Avro.Proofs.Registry.Batching
import Avro.Proofs.Pipeline.Schedules
import Avro.Proofs.Idl.Agreement
import Avro.Proofs.Idl.Inlined
import Avro.Proofs.Idl.Positions
import Avro.Proofs.Json.Pointers
