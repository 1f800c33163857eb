import Media2.Foundation.Execution
import Media2.Foundation.Chunking
import Media2.Foundation.ByteFormat
import Media2.Foundation.Workers
import Media2.Packet
import Media2.CodecParameters
import Media2.Uuid
import Media2.Segment
import Media2.Serialization
import Media2.Serialization.RoundTrip
import Media2.Serialization.Layout
import Media2.Segment.Representation
import Media2.Serialization.Whole
import Media2.Serialization.Room
import Media2.Serialization.Ending
import Media2.Draining
import Media2.StreamData
import Media2.Transport
import Media2.Segmenter
import Media2.Segmenter.Partition
import Media2.Segmenter.Delivery
import Media2.Segmenter.Failure
import Media2.PacketReader
import Media2.PacketReader.Player
import Media2.PacketReader.Steps
import Media2.PacketReader.Pause
import Media2.PacketReader.Resume
import Media2.PacketReader.Reading
import Media2.PacketReader.Reopening
import Media2.PacketReader.Closing
import Media2.PacketReader.Threads
import Media2.StreamCache
import Media2.StreamCache.Retention
import Media2.StreamCache.Expiry
import Media2.SegmentUnpacker
import Media2.SegmentUnpacker.Calls
import Media2.SegmentUnpacker.Drain
import Media2.SegmentUnpacker.Setup
import Media2.SegmentUnpacker.Linear
import Media2.SegmentUnpacker.Deliveries
import Media2.SegmentUnpacker.Trace
import Media2.SegmentUnpacker.Order
import Media2.Decoder
import Media2.Remote
import Media2.Resegmentation
import Media2.Transport.Listeners
import Media2.Transport.Envelope
import Media2.Muxer
import Media2.Muxer.Buffer
import Media2.Muxer.Protocol
import Media2.Muxer.Closing
import Media2.Muxer.Subscription
import Media2.Forwarding
import Media2.Foundation.DelayLine
import Media2.Encoder
import Media2.Transcoding
import Media2.Loss
import Media2.SegmentUnpacker.Accounts
import Media2.Storage
import Media2.Storage.Tasks
import Media2.Storage.Files
import Media2.Storage.Waiting
import Media2.Muxer.Addressing
import Media2.SegmentUnpacker.Script
import Media2.Muxer.Reel
import Media2.Reassembly
import Media2.Foundation.Signal
import Media2.Subscriptions
import Media2.Transport.Receiver
import Media2.Reassembly.Container
import Media2.Foundation.Blocks
import Media2.Graph
import Media2.Graph.Calls
import Media2.Graph.Ownership
import Media2.Graph.Values
import Media2.Graph.Origins
