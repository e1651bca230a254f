import ConfigTree.Loader.Describe
import ConfigTree.Loader.OptionsJson
import ConfigTree.Main
import ConfigTree.Proofs.CommandLine.Assignment
import ConfigTree.Proofs.CommandLine.Variables
import ConfigTree.Proofs.Document.AsMapping
import ConfigTree.Proofs.Document.MergeLaws
import ConfigTree.Proofs.Document.Rebuilt
import ConfigTree.Proofs.Document.Straight
import ConfigTree.Proofs.FilePath.Place
import ConfigTree.Proofs.Loader.Cycles
import ConfigTree.Proofs.Loader.ImportList
import ConfigTree.Proofs.Loader.Precedence
import ConfigTree.Proofs.Loader.Registrations
import ConfigTree.Proofs.Loader.Routing
import ConfigTree.Proofs.Path.Grammar
import ConfigTree.Proofs.Reference.Again
import ConfigTree.Proofs.Reference.Cycles
import ConfigTree.Proofs.Reference.Holes
import ConfigTree.Proofs.Reference.Leaf
import ConfigTree.Proofs.Reference.Restored
import ConfigTree.Proofs.Reference.Scanned
import ConfigTree.Proofs.Reference.Skipped
import ConfigTree.Proofs.Reference.Stopped
import ConfigTree.Proofs.Reference.Watched
